import Rnx.Store.Contents
import Rnx.Store.Reachable

/-!
# Writing to a place and reading it back

A place is an element of a list, the value of a variant or a field of a record.  Three of its
writers leave an equal value where it is, and `==` is coarser than identity: the two zeros of a float
are equal, and so are two spellings of one declared type.  The second is harmless, the first is not.

* `Writer.written_iff`: a write that returns has stored its value, and changed nothing else, exactly
  unless a writer that compares met the zero of the other sign.
* `Writer.not_written_zero`: it then keeps the old zero.
* `Writer.reads`: what the program's own readers return is what the place holds.
-/

namespace Rnx

open ErrState

/-- An element of a list or the value of a variant, by position; or a field of a record. -/
inductive Place
  | child (index : Nat)
  | field (key : List Char)
deriving DecidableEq

namespace Payload

/-- The keys of a record, in order. -/
def keys : Payload → List (List Char)
  | record _ fields => fields.items.map (·.1.chars)
  | _ => []

end Payload

namespace Place

/-- The value at a place. -/
def get (p : Payload) : Place → Option Value
  | child index =>
      match p with
      | .list _ values => values.items[index]?
      | .variant _ _ payload => if index = 0 then payload else none
      | _ => none
  | field key =>
      match p with
      | .record _ fields => Store.fieldOf fields.items key
      | _ => none

/-- `q` is `p` with `new` at the place: everything else is as it was, and a new key is the last. -/
structure Put (place : Place) (new : Value) (p q : Payload) : Prop where
  value : place.get q = some new
  others : ∀ other, other ≠ place → other.get q = other.get p
  tag : q.tag = p.tag
  keys : q.keys = p.keys ∨ place.get p = none ∧ ∃ key, place = field key ∧ q.keys = p.keys ++ [key]

end Place

namespace Value

/-- The same value: identical, or two spellings of one type. -/
def Same (N : Nominals) (old new : Value) : Prop :=
  old = new ∨ ∃ a b, old = type a ∧ new = type b ∧ a.eqv N b = true

/-- Two float zeros of opposite signs. -/
def OppositeZeros (old new : Value) : Prop :=
  ∃ a b : F64, old = f64 a ∧ new = f64 b ∧ a.isZero = true ∧ b.isZero = true ∧ a ≠ b

/-- What `==` takes to be equal is the same value, or the other zero. -/
lemma same_or_oppositeZeros {N : Nominals} {old new : Value} (h : old.eqv N new = true) :
    old.Same N new ∨ OppositeZeros old new := by
  cases old with
  | f64 a =>
      cases new with
      | f64 b =>
          by_cases hab : a = b
          · exact .inl (.inl (by rw [hab]))
          · refine .inr ⟨a, b, rfl, rfl, ?_⟩
            have hbits : ¬ a.bits = b.bits := fun hb => hab (congrArg F64.mk hb)
            simp only [eqv, F64.eqv, Bool.and_eq_true, Bool.or_eq_true, beq_iff_eq, hbits,
              false_or] at h
            exact ⟨h.2.1, h.2.2, hab⟩
      | _ => simp [eqv] at h
  | type a =>
      cases new with
      | type b => exact .inl (.inr ⟨a, b, rfl, rfl, h⟩)
      | _ => simp [eqv] at h
  | _ => cases new <;> simp_all [eqv, Same]

lemma OppositeZeros.eqv {N : Nominals} {old new : Value} (h : OppositeZeros old new) :
    old.eqv N new = true := by
  obtain ⟨a, b, rfl, rfl, ha, hb, -⟩ := h
  have hnan : ∀ x : F64, x.isZero = true → x.isNan = false := by
    intro x hx
    simp only [F64.isZero, beq_iff_eq] at hx
    simp [F64.isNan, hx]
  simp [Value.eqv, F64.eqv, hnan a ha, hnan b hb, ha, hb]

lemma OppositeZeros.not_same {N : Nominals} {old new : Value} (h : OppositeZeros old new) :
    ¬ old.Same N new := by
  obtain ⟨a, b, rfl, rfl, -, -, hab⟩ := h
  rintro (he | ⟨_, _, he, -⟩)
  · exact hab (f64.inj he)
  · cases he

end Value

namespace Store

variable {s t u : Store} {h k : Handle} {e : Entry} {own : Handle → Nat} {p q : Payload}
  {new old : Value}

/-! ## Readers -/

/-- The error of a tuple index a receiver does not have. -/
def missingInteger (v : Value) (index : Nat) : M Value := do
  let target ← read (·.typeName v)
  fail ((err .indexOutOfBounds).withDetail (.missingInteger target index))

/-- The error of a receiver that has no tuple indices. -/
def tupleGetError (v : Value) (index : Nat) : M Value := do
  let target ← read (·.typeName v)
  fail ((unsupported v).withDetail (.tupleIndexGet target index))

/-- A retained value. -/
def retained (v : Value) : M Value := do
  retain v
  pure v

/-- Whether a declared type has no field of this position. -/
def lacksIndex (s : Store) (n : Nominal) (index : Nat) : Bool :=
  match s.nominals.shape n with
  | some .named | some .empty => true
  | some (.tuple arity) => arity ≤ index
  | none => false

/-- A positional field of a struct.  A type that cannot have it says so even of a payload that cannot
be read. -/
def tupleStructGet (v : Value) (h : Handle) (index : Nat) : M Value := do
  match ← attempt (read (·.payload h)) with
  | .error x =>
      if x.kind = .accessConflict then
        let e ← read (·.entry h)
        let s ← get
        match e.payload.tag with
        | .struct n => if s.lacksIndex n index then missingInteger v index else fail x
        | _ => fail x
      else
        fail x
  | .ok (.list (.struct _) values) =>
      match values.items[index]? with
      | some old => retained old
      | none => missingInteger v index
  | .ok _ => missingInteger v index

/-- The part of `tupleGet` that reads the payload of a list or a variant. -/
def tuplePayloadGet (v : Value) (h : Handle) (index : Nat) : M Value := do
  match ← read (·.payload h) with
  | .list _ values =>
      match values.items[index]? with
      | some old => retained old
      | none => fail ((err .indexOutOfBounds).withDetail (.outOfRange index values.items.length))
  | .variant _ _ payload =>
      match index, payload with
      | 0, some old => retained old
      | _, _ => missingInteger v index
  | .record (.struct _) _ => missingInteger v index
  | _ => tupleGetError v index

/-- The value at a tuple index. -/
def tupleGet (v : Value) (index : Nat) : M Value :=
  match v with
  | .unit => missingInteger v index
  | .heap h => do
      let e ← read (·.entry h)
      match e.payload.tag with
      | .struct _ => tupleStructGet v h index
      | .vec | .tuple | .option | .result | .string => tuplePayloadGet v h index
      | _ => tupleGetError v index
  | _ => tupleGetError v index

/-- An endpoint of an ordinary range. -/
def rangeField (h : Handle) (key : List Char) : M Value :=
  match endpoint key with
  | none => fail (err .type)
  | some which => do
      let p ← read (·.payload h)
      let (start, finish) ← ofExcept (rangeEndpoints p)
      match which with
      | .start => retained start
      | .finish => retained finish

/-- An endpoint of another range shape. -/
def otherRangeField (h : Handle) (key : List Char) : M Value := do
  match ← read (·.payload h) with
  | .otherRange shape =>
      let value := match endpoint key with
        | some .start => shape.start
        | some .finish => shape.finish
        | none => none
      match value with
      | some old => retained old
      | none => fail (err .type)
  | _ => fail (err .invalidCode)

/-- The value of a field. -/
def field (v : Value) (key : List Char) : M Value :=
  match v with
  | .heap h => do
      let e ← read (·.entry h)
      match e.payload.tag with
      | .object | .struct _ =>
          match ← read (·.payload h) with
          | .record _ fields =>
              match fieldOf fields.items key with
              | some old => retained old
              | none => fail (err .indexOutOfBounds)
          | _ => fail (err .type)
      | .range => rangeField h key
      | .rangeFrom | .rangeFull | .rangeInclusive | .rangeToInclusive | .rangeTo =>
          otherRangeField h key
      | _ => fail (err .type)
  | _ => fail (err .type)

/-! ## Writers -/

/-- The operations that write to a place. -/
inductive Writer
  | tupleSet (index : Nat)
  | tupleSetMut (index : Nat)
  | fieldSetMut (key : List Char)
  | set (index : Nat)
  | setKey (key : RecordKey)

namespace Writer

/-- Write `new` to the place in `v`. -/
def run (w : Writer) (v new : Value) : M Unit :=
  match w with
  | tupleSet index => Store.tupleSet v index new
  | tupleSetMut index => Store.tupleSetMut v index new
  | fieldSetMut key => Store.fieldSetMut v key new
  | set index => Store.set v index new
  | setKey key => Store.setKey v key new

/-- Whether the writer compares first, and leaves an equal value where it is. -/
def compares : Writer → Bool
  | tupleSet _ | tupleSetMut _ | fieldSetMut _ => true
  | set _ | setKey _ => false

/-- The place a writer names in a payload.  A plain assignment names the value of an `Err` by 1. -/
def place (w : Writer) (s : Store) (p : Payload) : Place :=
  match w with
  | tupleSet index =>
      match p with
      | .variant _ _ _ => .child 0
      | _ => .child index
  | tupleSetMut index | set index => .child index
  | fieldSetMut key => .field key
  | setKey key => .field ((key.text s).toOption.getD [])

/-- Read a place the way the program does. -/
def readBack (w : Writer) (v : Value) (place : Place) : M Value :=
  match w, place with
  | set _, .child index => getElement v index
  | _, .child index => tupleGet v index
  | _, .field key => field v key

end Writer

/-! ## Fields -/

lemma fieldIndex_spec {fields : List (Text × Value)} {key : List Char} {i : Nat}
    (hi : fieldIndex fields key = some i) :
    ∃ f, fields[i]? = some f ∧ fieldOf fields key = some f.2 ∧ ∀ new other,
      fieldOf (fields.set i (f.1, new)) other =
        if other = key then some new else fieldOf fields other := by
  induction fields generalizing i with
  | nil => cases hi
  | cons g fields ih =>
      unfold fieldIndex at hi ih
      rw [List.findIdx?_cons] at hi
      by_cases hg : g.1.chars = key
      · simp only [hg, decide_true, if_true] at hi
        obtain rfl := Option.some.inj hi
        refine ⟨g, rfl, by simp [fieldOf, hg], fun new other => ?_⟩
        by_cases ho : other = key
        · simp [fieldOf, hg, ho]
        · have hgo : ¬ g.1.chars = other := fun h => ho (h.symm.trans hg)
          simp [fieldOf, hgo, ho]
      · simp only [hg, decide_false, Bool.false_eq_true, if_false, Option.map_eq_some_iff] at hi
        obtain ⟨j, hj, rfl⟩ := hi
        obtain ⟨f, hf, hof, hset⟩ := ih hj
        have hcons : ∀ (l : List (Text × Value)) other, fieldOf (g :: l) other =
            if g.1.chars = other then some g.2 else fieldOf l other := by
          intro l other
          by_cases ho : g.1.chars = other <;> simp [fieldOf, ho]
        refine ⟨f, hf, by rw [hcons, if_neg hg, hof], fun new other => ?_⟩
        rw [List.set_cons_succ, hcons, hcons, hset]
        split_ifs with h1 h2
        · exact (hg (h1.trans h2)).elim
        · rfl
        · rfl
        · rfl

lemma fieldIndex_eq_none {fields : List (Text × Value)} {key : List Char}
    (hi : fieldIndex fields key = none) : fieldOf fields key = none := by
  unfold fieldIndex at hi
  unfold fieldOf
  rw [Option.map_eq_none_iff, List.find?_eq_none]
  rw [List.findIdx?_eq_none_iff] at hi
  intro f hf
  simpa using hi f hf

lemma fieldOf_append (fields : List (Text × Value)) (f : Text × Value) (other : List Char) :
    fieldOf (fields ++ [f]) other =
      (fieldOf fields other).or (if f.1.chars = other then some f.2 else none) := by
  unfold fieldOf
  rw [List.find?_append, Option.map_or]
  by_cases hf : f.1.chars = other <;> simp [hf]

/-! ## What is put -/

lemma put_list {tag : Ty} {values : Buf Value} {i : Nat} (hi : values.items[i]? = some old)
    (new : Value) : Place.Put (.child i) new (.list tag values) (.list tag (values.set i new)) where
  value := by
    obtain ⟨hlt, -⟩ := List.getElem?_eq_some_iff.1 hi
    simp [Place.get, Buf.set, hlt]
  others other hne := by
    cases other with
    | child j =>
        have hij : i ≠ j := fun h => hne (by rw [h])
        simp [Place.get, Buf.set, hij]
    | field key => rfl
  tag := rfl
  keys := .inl rfl

lemma put_variant (tag : Ty) (success : Bool) (payload : Option Value) (new : Value) :
    Place.Put (.child 0) new (.variant tag success payload)
      (.variant tag success (some new)) where
  value := rfl
  others other hne := by
    cases other with
    | child j =>
        have hj : j ≠ 0 := fun h => hne (by rw [h])
        simp [Place.get, hj]
    | field key => rfl
  tag := rfl
  keys := .inl rfl

lemma put_record {tag : Ty} {fields : Buf (Text × Value)} {key : List Char} {i : Nat}
    (hi : fieldIndex fields.items key = some i) (new : Value) :
    Place.Put (.field key) new (.record tag fields) (.record tag (setField fields i new)) := by
  obtain ⟨f, hf, -, hset⟩ := fieldIndex_spec hi
  have hitems : (setField fields i new).items = fields.items.set i (f.1, new) := by
    rw [setField, hf]
    rfl
  refine ⟨?_, fun other hne => ?_, rfl, .inl ?_⟩
  · change fieldOf (setField fields i new).items key = some new
    rw [hitems, hset, if_pos rfl]
  · cases other with
    | child j => rfl
    | field k =>
        change fieldOf (setField fields i new).items k = fieldOf fields.items k
        rw [hitems, hset, if_neg fun h => hne (by rw [h])]
  · change (setField fields i new).items.map (·.1.chars) = fields.items.map (·.1.chars)
    obtain ⟨hlt, hget⟩ := List.getElem?_eq_some_iff.1 hf
    have hlt' : i < (fields.items.map (·.1.chars)).length := by simpa using hlt
    have hkey : (fields.items.map (·.1.chars))[i] = f.1.chars := by
      rw [List.getElem_map, hget]
    rw [hitems, List.map_set, ← hkey]
    exact List.set_getElem_self hlt'

lemma put_inserted {tag : Ty} {fields grown : Buf (Text × Value)} {key : List Char}
    (hi : fieldIndex fields.items key = none) (new : Value)
    (hg : grown.items = fields.items ++ [(.copy key, new)]) :
    Place.Put (.field key) new (.record tag fields) (.record tag grown) := by
  have hnone := fieldIndex_eq_none hi
  refine ⟨?_, fun other hne => ?_, rfl, .inr ⟨hnone, key, rfl, ?_⟩⟩
  · change fieldOf grown.items key = some new
    rw [hg, fieldOf_append, hnone]
    simp [Text.copy]
  · cases other with
    | child j => rfl
    | field k =>
        have hk : ¬ key = k := fun h => hne (by rw [h])
        change fieldOf grown.items k = fieldOf fields.items k
        rw [hg, fieldOf_append]
        simp [Text.copy, hk]
  · change grown.items.map (·.1.chars) = fields.items.map (·.1.chars) ++ [key]
    rw [hg]
    simp [Text.copy]

/-! ## What a writer does -/

/-- A writer that compares leaves an equal value alone; every other write puts the value there. -/
inductive Outcome (own : Handle → Nat) (w : Writer) (h : Handle) (new : Value) (p : Payload)
    (s t : Store) : Prop
  | skipped (old : Value) (compares : w.compares = true) (found : (w.place s p).get p = some old)
      (equal : old.eqv s.nominals new = true) (same : t = s)
  | replaced (q : Payload)
      (differs : w.compares = true → ∀ old, (w.place s p).get p = some old →
        old.eqv s.nominals new = false)
      (put : (w.place s p).Put new p q) (rewritten : Rewritten own h q s t)

lemma replaceTuplePlace_spec (w : Writer) (hi : Inv own none s) (hm : s.mutable h = .ok p)
    {index : Nat} (hw : w.compares = true) (ho : (w.place s p).get p = some old)
    (hx : Exchanges p (withTuplePlace p index new) old new) (hp : p.restores = none)
    (hq : (withTuplePlace p index new).restores = none)
    (hput : (w.place s p).Put new p (withTuplePlace p index new)) :
    wp (replaceTuplePlace h p index old new)
      (fun _ t => ∃ p, s.mutable h = .ok p ∧ Outcome own w h new p s t) (fun _ _ => True) s := by
  unfold replaceTuplePlace
  rw [wp_get_bind]
  refine wp_ite (fun he => ⟨p, hm, .skipped old hw ho he rfl⟩) fun he => ?_
  refine wp_mono (replaceChild_contents hi hm hx hp hq) ?_ fun _ _ _ => trivial
  intro _ t ht
  refine ⟨p, hm, .replaced _ (fun _ x hx => ?_) hput ht⟩
  obtain rfl := Option.some.inj (ho.symm.trans hx)
  exact Bool.eq_false_iff.2 he

lemma tupleSet_spec (hi : Inv own none s) (index : Nat) :
    wp (tupleSet (.heap h) index new)
      (fun _ t => ∃ p, s.mutable h = .ok p ∧ Outcome own (.tupleSet index) h new p s t)
      (fun _ _ => True) s := by
  refine wp_read_bind (fun _ _ => trivial) fun p hm => ?_
  split
  · next old ho =>
      have hx := exchanges_tuplePlace ho new
      cases p with
      | list tag values =>
          exact replaceTuplePlace_spec (.tupleSet index) hi hm rfl ho hx rfl rfl (put_list ho new)
      | variant tag success payload =>
          have hv : payload = some old := by
            unfold tuplePlace at ho
            simp only at ho
            split_ifs at ho <;> exact ho
          exact replaceTuplePlace_spec (.tupleSet index) hi hm rfl hv hx rfl rfl
            (put_variant tag success payload new)
      | _ => cases ho
  · exact wp_read_bind (fun _ _ => trivial) fun _ _ => trivial

lemma tupleSetMut_spec (hi : Inv own none s) (index : Nat) :
    wp (tupleSetMut (.heap h) index new)
      (fun _ t => ∃ p, s.mutable h = .ok p ∧ Outcome own (.tupleSetMut index) h new p s t)
      (fun _ _ => True) s := by
  refine wp_read_bind (fun _ _ => trivial) fun p hm => ?_
  split
  · next old ho =>
      have hx := exchanges_tuplePlaceMut ho new
      cases p with
      | list tag values =>
          exact replaceTuplePlace_spec (.tupleSetMut index) hi hm rfl ho hx rfl rfl
            (put_list ho new)
      | variant tag success payload =>
          have hzero : index = 0 := by
            unfold tuplePlaceMut at ho
            simp only at ho
            split_ifs at ho with h0
            exact h0
          subst hzero
          exact replaceTuplePlace_spec (.tupleSetMut 0) hi hm rfl ho hx rfl rfl
            (put_variant tag success payload new)
      | _ => cases ho
  · trivial

lemma set_spec (hi : Inv own none s) (index : Nat) :
    wp (set (.heap h) index new)
      (fun _ t => ∃ p, s.mutable h = .ok p ∧ Outcome own (.set index) h new p s t)
      (fun _ _ => True) s := by
  refine wp_read_bind (fun _ _ => trivial) fun p hm => ?_
  split
  · split
    · next ho =>
        refine wp_mono (replaceChild_contents hi hm (exchanges_list ho new) rfl rfl) ?_
          fun _ _ _ => trivial
        intro _ t ht
        exact ⟨_, hm, .replaced _ (fun hc => by cases hc) (put_list ho new) ht⟩
    · trivial
  · trivial

lemma fieldSetMut_spec (hi : Inv own none s) (key : List Char) :
    wp (fieldSetMut (.heap h) key new)
      (fun _ t => ∃ p, s.mutable h = .ok p ∧ Outcome own (.fieldSetMut key) h new p s t)
      (fun _ _ => True) s := by
  refine wp_read_bind (fun _ _ => trivial) fun p hm => ?_
  split
  · next tag fields =>
      split
      · next i hidx =>
          obtain ⟨f, hf, hfound, -⟩ := fieldIndex_spec hidx
          split
          · next name old ho =>
              obtain rfl := Option.some.inj (hf.symm.trans ho)
              rw [wp_get_bind]
              refine wp_ite (fun he => ⟨_, hm, .skipped old rfl hfound he rfl⟩) fun he => ?_
              refine wp_mono (replaceChild_contents hi hm (exchanges_record ho new) rfl rfl) ?_
                fun _ _ _ => trivial
              intro _ t ht
              refine ⟨_, hm, .replaced _ (fun _ x hx => ?_) (put_record hidx new) ht⟩
              obtain rfl := Option.some.inj (hfound.symm.trans hx)
              exact Bool.eq_false_iff.2 he
          · trivial
      · trivial
  · trivial

lemma setKey_spec (hi : Inv own none s) (key : RecordKey) :
    wp (setKey (.heap h) key new)
      (fun _ t => ∃ p, s.mutable h = .ok p ∧ Outcome own (.setKey key) h new p s t)
      (fun _ _ => True) s := by
  refine wp_read_bind (fun _ _ => trivial) fun p hm => ?_
  refine wp_read_bind (fun _ _ => trivial) fun text htext => ?_
  have hplace : ∀ q, (Writer.setKey key).place s q = .field text := by
    intro q
    simp [Writer.place, htext, Except.toOption]
  split
  · next tag fields =>
      split
      · next i hidx =>
          split
          · next ho =>
              refine wp_mono (replaceChild_contents hi hm (exchanges_record ho new) rfl rfl) ?_
                fun _ _ _ => trivial
              intro _ t ht
              refine ⟨_, hm, .replaced _ (fun hc => by cases hc) ?_ ht⟩
              rw [hplace]
              exact put_record hidx new
          · trivial
      · next hidx =>
          refine wp_ite (fun _ => ?_) fun _ => wp_read_bind (fun _ _ => trivial) fun _ _ => trivial
          refine wp_mono (insertKey_contents hi hm) ?_ fun _ _ _ => trivial
          rintro - t ⟨grown, hg, ht⟩
          refine ⟨_, hm, .replaced _ (fun hc => by cases hc) ?_ ht⟩
          rw [hplace]
          exact put_inserted hidx new hg
  · trivial

/-- A write that returns has either left an equal value alone or put its own there. -/
lemma Writer.outcome (w : Writer) (hi : Inv own none s) :
    wp (w.run (.heap h) new) (fun _ t => ∃ p, s.mutable h = .ok p ∧ Outcome own w h new p s t)
      (fun _ _ => True) s := by
  cases w with
  | tupleSet index => exact tupleSet_spec hi index
  | tupleSetMut index => exact tupleSetMut_spec hi index
  | fieldSetMut key => exact fieldSetMut_spec hi key
  | set index => exact set_spec hi index
  | setKey key => exact setKey_spec hi key

/-! ## Reading back -/

/-- A retained value is the value. -/
lemma wp_retained (v : Value) : wp (retained v) (fun y _ => y = v) (fun _ _ => True) s := by
  unfold retained
  rw [wp_bind]
  unfold wp
  rcases retain v s with ⟨x | a, t⟩
  · trivial
  · rfl

lemma getElement_reads {index : Nat} (hp : s.payload h = .ok p)
    (hv : (Place.child index).get p = some old) :
    wp (getElement (.heap h) index) (fun y _ => y = old) (fun _ _ => True) s := by
  refine wp_read_bind (fun _ _ => trivial) fun q hq => ?_
  obtain rfl := Except.ok.inj (hp.symm.trans hq)
  split
  · next tag values =>
      have hv : values.items[index]? = some old := hv
      rw [hv]
      exact wp_retained old
  · trivial

lemma wp_missingInteger {Q : Value → Store → Prop} (v : Value) (index : Nat) :
    wp (missingInteger v index) Q (fun _ _ => True) s :=
  wp_read_bind (fun _ _ => trivial) fun _ _ => trivial

lemma wp_tupleGetError {Q : Value → Store → Prop} (v : Value) (index : Nat) :
    wp (tupleGetError v index) Q (fun _ _ => True) s :=
  wp_read_bind (fun _ _ => trivial) fun _ _ => trivial

lemma tupleStructGet_reads {index : Nat} {v : Value} (hp : s.payload h = .ok p)
    (hv : (Place.child index).get p = some old) :
    wp (tupleStructGet v h index) (fun y _ => y = old) (fun _ _ => True) s := by
  unfold tupleStructGet
  rw [wp_bind, wp_attempt]
  refine wp_read (fun x hx => ?_) fun q hq => ?_
  · rw [hp] at hx
    cases hx
  obtain rfl := Except.ok.inj (hp.symm.trans hq)
  split
  · next hx => cases hx
  · next n values hx =>
      obtain rfl := Except.ok.inj hx
      have hv : values.items[index]? = some old := hv
      rw [hv]
      exact wp_retained old
  · exact wp_missingInteger v index

lemma tuplePayloadGet_reads {index : Nat} {v : Value} (hp : s.payload h = .ok p)
    (hv : (Place.child index).get p = some old) :
    wp (tuplePayloadGet v h index) (fun y _ => y = old) (fun _ _ => True) s := by
  refine wp_read_bind (fun _ _ => trivial) fun q hq => ?_
  obtain rfl := Except.ok.inj (hp.symm.trans hq)
  split
  · next tag values =>
      have hv : values.items[index]? = some old := hv
      rw [hv]
      exact wp_retained old
  · next payload =>
      split
      · next x =>
          obtain rfl : x = old := Option.some.inj hv
          exact wp_retained x
      · exact wp_missingInteger v index
  · exact wp_missingInteger v index
  · exact wp_tupleGetError v index

lemma tupleGet_reads {index : Nat} (hp : s.payload h = .ok p)
    (hv : (Place.child index).get p = some old) :
    wp (tupleGet (.heap h) index) (fun y _ => y = old) (fun _ _ => True) s := by
  refine wp_read_bind (fun _ _ => trivial) fun e _ => ?_
  split
  · exact tupleStructGet_reads hp hv
  · exact tuplePayloadGet_reads hp hv
  · exact tuplePayloadGet_reads hp hv
  · exact tuplePayloadGet_reads hp hv
  · exact tuplePayloadGet_reads hp hv
  · exact tuplePayloadGet_reads hp hv
  · exact wp_tupleGetError _ index

lemma field_reads {key : List Char} (hp : s.payload h = .ok p)
    (hv : (Place.field key).get p = some old) :
    wp (field (.heap h) key) (fun y _ => y = old) (fun _ _ => True) s := by
  -- The payload is a record's, so every other reader of a field refuses it.
  have hrecord : ∃ tag fields, p = .record tag fields := by
    cases p with
    | record tag fields => exact ⟨tag, fields, rfl⟩
    | _ => cases hv
  obtain ⟨tag, fields, rfl⟩ := hrecord
  have hv : fieldOf fields.items key = some old := hv
  have hobject : wp (do
      match ← read (·.payload h) with
      | .record _ fields =>
          match fieldOf fields.items key with
          | some old => retained old
          | none => fail (err .indexOutOfBounds)
      | _ => fail (err .type)) (fun y _ => y = old) (fun _ _ => True) s := by
    refine wp_read_bind (fun _ _ => trivial) fun q hq => ?_
    obtain rfl := Except.ok.inj (hp.symm.trans hq)
    simp only [hv]
    exact wp_retained old
  have hother : wp (otherRangeField h key) (fun y _ => y = old) (fun _ _ => True) s := by
    refine wp_read_bind (fun _ _ => trivial) fun q hq => ?_
    obtain rfl := Except.ok.inj (hp.symm.trans hq)
    trivial
  refine wp_read_bind (fun _ _ => trivial) fun e _ => ?_
  split
  · exact hobject
  · exact hobject
  · unfold rangeField
    split
    · trivial
    · refine wp_read_bind (fun _ _ => trivial) fun q hq => ?_
      obtain rfl := Except.ok.inj (hp.symm.trans hq)
      exact wp_ofExcept_bind (fun _ _ => trivial) fun _ hx => by cases hx
  · exact hother
  · exact hother
  · exact hother
  · exact hother
  · exact hother
  · trivial

/-- What a reader returns is what the place holds. -/
lemma Writer.reads (w : Writer) {place : Place} (hp : s.payload h = .ok p)
    (hv : place.get p = some old) :
    wp (w.readBack (.heap h) place) (fun y _ => y = old) (fun _ _ => True) s := by
  cases place with
  | child index =>
      cases w with
      | set i => exact getElement_reads hp hv
      | _ => exact tupleGet_reads hp hv
  | field key => cases w <;> exact field_reads hp hv

/-- A place that holds a value is in a payload that was not moved out. -/
lemma Place.not_moved {place : Place} (hv : place.get p = some old) : p.isMoved = false := by
  cases p with
  | moved tag => cases place <;> cases hv
  | _ => rfl

/-! ## Writing, then reading -/

/-- What a write that returned is to have done: the place holds the value and is read so, the rest
of the entry is as it was, and so is what every other entry holds.  The entry lives on if the caller
owns a reference to it. -/
structure Written (own : Handle → Nat) (w : Writer) (h : Handle) (new : Value) (p : Payload)
    (s t : Store) : Prop where
  live : 1 ≤ own h → ∃ q, t.payload h = .ok q
  stored : ∀ q, t.payload h = .ok q → ∃ x : Value, x.Same s.nominals new ∧
    (w.place s p).Put x p q ∧
    ∀ y u, w.readBack (.heap h) (w.place s p) t = (.ok y, u) → y = x
  others : ∀ k, k ≠ h → (t.at? k).isSome = true → t.contents k = s.contents k

namespace Writer

/-- The call a write is. -/
def call (w : Writer) (v new : Value) : Call :=
  match w with
  | tupleSet index => .tupleSet v index new
  | tupleSetMut index => .tupleSetMut v index new
  | fieldSetMut key => .fieldSetMut v key new
  | set index => .set v index new
  | setKey key => .setKey v key new

lemma reach_run {w : Writer} {v : Value} (hr : Reach own s) (hrun : w.run v new s = (.ok (), t)) :
    Reach own t := by
  have hcall : (w.call v new).run s = (.ok none, t) := by
    cases w <;> exact run_bind hrun
  have howned : (w.call v new).Owned own := by cases w <;> trivial
  have htakes : (w.call v new).takes = 0 := by cases w <;> rfl
  have hown : own - (w.call v new).takes + optionRefs none = own := by
    rw [htakes]
    rfl
  exact hown ▸ hr.returned howned hcall

end Writer

/-- A write that returns has done what it is to do, unless it compared a zero with the zero of the
other sign: then it has done nothing. -/
theorem Writer.written_iff {w : Writer} (hr : Reach own s) (hp : s.payload h = .ok p)
    (hrun : w.run (.heap h) new s = (.ok (), t)) :
    Written own w h new p s t ↔
      ¬ (w.compares = true ∧
        ∃ old : Value, (w.place s p).get p = some old ∧ old.OppositeZeros new) := by
  obtain ⟨hi, -⟩ := reach_inv hr
  obtain ⟨hit, -⟩ := reach_inv (Writer.reach_run hr hrun)
  obtain ⟨p', hm, hout⟩ := (wp_run hrun (w.outcome hi)).1 _ rfl
  obtain rfl := Except.ok.inj ((payload_of_mutable hm).symm.trans hp)
  have hread : ∀ {x : Value} {q : Payload}, t.payload h = .ok q → (w.place s p').get q = some x →
      ∀ y u, w.readBack (.heap h) (w.place s p') t = (.ok y, u) → y = x :=
    fun hq hx y u hy => (wp_run hy (w.reads hq hx)).1 y rfl
  cases hout with
  | skipped old compares found equal same =>
      subst same
      constructor
      · rintro hw ⟨-, old', hold, hzero⟩
        obtain rfl := Option.some.inj (found.symm.trans hold)
        obtain ⟨x, hsame, hput, -⟩ := hw.stored p' hp
        obtain rfl := Option.some.inj (found.symm.trans hput.value)
        exact hzero.not_same hsame
      · intro hne
        have hsame := (Value.same_or_oppositeZeros equal).resolve_right
          fun hz => hne ⟨compares, old, found, hz⟩
        refine ⟨fun _ => ⟨p', hp⟩, fun q hq => ?_, fun _ _ _ => rfl⟩
        obtain rfl := Except.ok.inj (hp.symm.trans hq)
        exact ⟨old, hsame, ⟨found, fun _ _ => rfl, rfl, .inl rfl⟩, hread hq found⟩
  | replaced q differs put rewritten =>
      constructor
      · rintro - ⟨hc, old, hold, hzero⟩
        have := differs hc old hold
        rw [hzero.eqv] at this
        cases this
      · intro _
        have hpay : ∀ x, t.at? h = some x → t.payload h = .ok q := by
          intro x hx
          have hq := rewritten.payload x hx
          exact payload_eq_ok.2 ⟨hit.table.isOpen, x, hx, hq, Place.not_moved put.value⟩
        refine ⟨fun hown => ?_, fun q' hq => ?_, fun k hk hkt => (rewritten.others k hk hkt).contents⟩
        · obtain ⟨x, hx⟩ := Option.isSome_iff_exists.1 (rewritten.live hown)
          exact ⟨q, hpay x hx⟩
        · obtain ⟨-, x, hx, -, -⟩ := payload_eq_ok.1 hq
          obtain rfl := Except.ok.inj ((hpay x hx).symm.trans hq)
          exact ⟨new, .inl rfl, put, hread hq put.value⟩

/-! ## The zero that stays -/

/-- The zero of the other sign. -/
def negativeZero : F64 := ⟨0x8000000000000000#64⟩

/-- A tuple of a positive zero. -/
def zeroTuple : Store := (Call.list .tuple [.f64 ⟨0#64⟩]).after small

lemma reach_zeroTuple : Reach (Value.heap ⟨0, 1⟩).refs zeroTuple := by
  have hcreated : Store.new 1 ⟨4, 40⟩ noNominals (fun _ => true) = .ok small := rfl
  have hlist : Reach (0 - 0 + (Value.heap ⟨0, 1⟩).refs) zeroTuple :=
    (Reach.new hcreated).returned (c := .list .tuple [.f64 ⟨0#64⟩]) (r := some (.heap ⟨0, 1⟩))
      trivial rfl
  have hown : 0 - 0 + (Value.heap ⟨0, 1⟩).refs = (Value.heap ⟨0, 1⟩).refs := by
    funext k
    simp
  exact hown ▸ hlist

/-- A number written over the zero is stored. -/
theorem Writer.written_iff_number :
    Written (Value.heap ⟨0, 1⟩).refs (.tupleSet 0) ⟨0, 1⟩ (.u64 ⟨7, by decide⟩)
      (.list .tuple (.copy [.f64 ⟨0#64⟩])) zeroTuple
      ((Call.tupleSet (.heap ⟨0, 1⟩) 0 (.u64 ⟨7, by decide⟩)).after zeroTuple) := by
  refine (Writer.written_iff reach_zeroTuple rfl rfl).2 ?_
  rintro ⟨-, old, -, _, _, -, he, -⟩
  cases he

/-- The negative zero is not written over the positive one. -/
theorem Writer.not_written_zero : ¬ ∀ (own : Handle → Nat) (s t : Store) (w : Writer) (h : Handle)
    (new : Value) (p : Payload), Reach own s → s.payload h = .ok p →
    w.run (.heap h) new s = (.ok (), t) → Written own w h new p s t := by
  intro hall
  have hp : zeroTuple.payload ⟨0, 1⟩ = .ok (.list .tuple (.copy [.f64 ⟨0#64⟩])) := rfl
  have hw := hall _ zeroTuple zeroTuple (.tupleSet 0) ⟨0, 1⟩ (.f64 negativeZero) _ reach_zeroTuple
    hp rfl
  obtain ⟨x, hsame, hput, -⟩ := hw.stored _ hp
  obtain rfl : Value.f64 ⟨0#64⟩ = x := Option.some.inj hput.value
  rcases hsame with he | ⟨a, b, he, -⟩
  · exact absurd he (by decide)
  · cases he

end Store

end Rnx
