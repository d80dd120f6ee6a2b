import Rnx.Web.Percent
import Rnx.Web.Values

/-!
# Forms

`form` of `web.rs`.  A form is a text of pairs between `&`s, a key and a value around the first `=`
of each, both percent-encoded with a plus for a space.  A first pass checks every part and the bytes
they decode to, a second decodes them; of pairs with one key the first counts.

* `measure_eq` — the first pass fails exactly at a part that is not UTF-8;
* `insertPairs_eq` — the second keeps the first value of each key;
* `parse_form_decodes` — the forms within the limits, and the parts of any text.
-/

namespace Rnx

open Utf8

namespace Web

/-- `str::split_once` at a character. -/
def splitOnce (sep : Char) : List Char → Option (List Char × List Char)
  | [] => none
  | c :: text =>
      if c = sep then some ([], text)
      else (splitOnce sep text).map fun p => (c :: p.1, p.2)

/-- The key and the value of a pair. -/
def keyValue (pair : List Char) : List Char × List Char := (splitOnce '=' pair).getD (pair, [])

/-- The number of pairs in a form. -/
def pairCount (text : List Char) : Nat :=
  if text = [] then 0 else (encode text).count 38 + 1

/-- The pairs of a form. -/
def pairs (text : List Char) : List (List Char × List Char) :=
  if pairCount text > 0 then (Http.split '&' text).map keyValue else []

/-- The parts of the pairs, in their order. -/
def parts (text : List Char) : List (List Char) := (pairs text).flatMap fun p => [p.1, p.2]

/-- The first pass of `form`: the bytes the parts decode to. -/
def measure (total : Nat) : List (List Char) → Except String Nat
  | [] => .ok total
  | part :: rest => do
      let n ← decodedLen part true
      if total + n ≤ usizeMax then
        bounded (total + n) bodyMax "parse_form decoded bytes"
        measure (total + n) rest
      else .error "web: parse_form length overflow"

/-- The second pass of `form`. -/
def insertPairs (out : Object) : List (List Char × List Char) → Except String Object
  | [] => .ok out
  | (k, v) :: rest => do
      let k ← decode k true
      if (out.lookup (String.ofList k)).isNone = true then
        let v ← decode v true
        insertPairs (put out (String.ofList k) (.string v)) rest
      else insertPairs out rest

/-- `form`. -/
def form (body : Value) : Except String Object :=
  withBytes body fun bytes => do
    bounded bytes.length bodyMax "parse_form input"
    let s := fromUtf8 bytes
    if s.error = none then
      bounded (pairCount s.text) pairsMax "parse_form pairs"
      let _ ← measure 0 (parts s.text)
      insertPairs [] (pairs s.text)
    else .error "web: parse_form body is not UTF-8"

/-! ## The first pass -/

/-- The bytes a text decodes to. -/
def decodedBytes (part : List Char) : Nat := (percentDecode true (encode part)).length

/-- The first pass fails at a part that is not UTF-8, and only there. -/
lemma measure_eq {total : Nat} {rest : List (List Char)}
    (h : total + (rest.map decodedBytes).sum ≤ bodyMax) :
    ((∃ part ∈ rest, component part true = none) → measure total rest = .error notUtf8) ∧
      ((∀ part ∈ rest, component part true ≠ none) →
        measure total rest = .ok (total + (rest.map decodedBytes).sum)) := by
  induction rest generalizing total with
  | nil => exact ⟨fun ⟨part, hmem, _⟩ => (by cases hmem), fun _ => rfl⟩
  | cons part rest ih =>
      rw [List.map_cons, List.sum_cons, ← Nat.add_assoc] at h
      have hmax : bodyMax ≤ usizeMax := by decide
      have hsum : total + decodedBytes part ≤ bodyMax := Nat.le_trans (Nat.le_add_right _ _) h
      have hlen := decodedLen_eq part true
      by_cases hpart : component part true = none
      · rw [if_neg (component_eq_none.1 hpart)] at hlen
        refine ⟨fun _ => ?_, fun hall => absurd hpart (hall part List.mem_cons_self)⟩
        rw [measure, hlen]
        rfl
      · rw [if_pos (by_contra fun hne => hpart (component_eq_none.2 hne))] at hlen
        have hstep : measure total (part :: rest) = measure (total + decodedBytes part) rest := by
          change decodedLen part true = .ok (decodedBytes part) at hlen
          rw [measure, hlen]
          simp only [bind, Except.bind]
          rw [if_pos (Nat.le_trans hsum hmax), bounded_ok hsum]
        rw [hstep, List.map_cons, List.sum_cons, ← Nat.add_assoc, List.exists_mem_cons_iff,
          List.forall_mem_cons]
        exact ⟨fun hex => (ih h).1 (hex.resolve_left hpart), fun hall => (ih h).2 hall.2⟩

/-! ## The second pass -/

/-- The value of the first pair with a key. -/
def firstValue (ps : List (List Char × List Char)) (key : String) : Option Value :=
  (ps.find? fun p => component p.1 true == some key.toList).bind fun p =>
    (component p.2 true).map .string

lemma firstValue_cons {k v key value : List Char} (hkey : component k true = some key)
    (hvalue : component v true = some value) (ps : List (List Char × List Char)) (key' : String) :
    firstValue ((k, v) :: ps) key' =
      if key' = String.ofList key then some (.string value) else firstValue ps key' := by
  unfold firstValue
  by_cases hsame : key' = String.ofList key
  · have htrue : (some key == some key'.toList) = true := by
      rw [hsame, String.toList_ofList, beq_self_eq_true]
    rw [List.find?_cons_of_pos (by rw [hkey]; exact htrue), if_pos hsame, Option.bind_some,
      hvalue, Option.map_some]
  · have hfalse : ¬(some key == some key'.toList) = true := by
      rw [beq_iff_eq, Option.some.injEq]
      rintro rfl
      exact hsame String.ofList_toList.symm
    rw [List.find?_cons_of_neg (by rw [hkey]; exact hfalse), if_neg hsame]

/-- The second pass keeps what was there, and the first value of each other key. -/
lemma insertPairs_eq (out : Object) {ps : List (List Char × List Char)}
    (h : ∀ p ∈ ps, component p.1 true ≠ none ∧ component p.2 true ≠ none) :
    ∃ out', insertPairs out ps = .ok out' ∧
      ∀ key : String, out'.lookup key = (out.lookup key).or (firstValue ps key) := by
  induction ps generalizing out with
  | nil => exact ⟨out, rfl, fun key => by simp [firstValue]⟩
  | cons p ps ih =>
      obtain ⟨k, v⟩ := p
      rw [List.forall_mem_cons] at h
      obtain ⟨key, hkey⟩ := Option.ne_none_iff_exists'.1 h.1.1
      obtain ⟨value, hvalue⟩ := Option.ne_none_iff_exists'.1 h.1.2
      have hk : decode k true = .ok key := by rw [decode_eq, hkey]
      have hv : decode v true = .ok value := by rw [decode_eq, hvalue]
      have hfirst := firstValue_cons hkey hvalue ps
      cases hout : out.lookup (String.ofList key) with
      | some present =>
          obtain ⟨out', heq, hget⟩ := ih out h.2
          refine ⟨out', ?_, ?_⟩
          · rw [insertPairs, hk]
            simp only [bind, Except.bind, hout]
            exact heq
          · intro key'
            rw [hget, hfirst]
            split_ifs with hsame
            · rw [hsame, hout]
              rfl
            · rfl
      | none =>
          obtain ⟨out', heq, hget⟩ := ih (put out (String.ofList key) (.string value)) h.2
          refine ⟨out', ?_, ?_⟩
          · rw [insertPairs, hk]
            simp only [bind, Except.bind, hout, hv]
            exact heq
          · intro key'
            rw [hget, hfirst, put_of_none hout, List.lookup_append, List.lookup_cons]
            by_cases hsame : key' = String.ofList key
            · rw [if_pos hsame, hsame, hout, beq_self_eq_true]
              rfl
            · rw [if_neg hsame, beq_eq_false_iff_ne.2 hsame]
              simp

/-! ## The bytes of the parts -/

lemma splitOnce_length {sep : Char} {text k v : List Char} (h : splitOnce sep text = some (k, v)) :
    (encode k).length + (encode v).length ≤ (encode text).length := by
  induction text generalizing k with
  | nil => cases h
  | cons c text ih =>
      rw [splitOnce] at h
      rw [encode_cons, List.length_append]
      split_ifs at h with hc
      · cases h
        rw [encode_nil, List.length_nil, Nat.zero_add]
        exact Nat.le_add_left _ _
      · obtain ⟨⟨k', v'⟩, heq, hpair⟩ := Option.map_eq_some_iff.1 h
        cases hpair
        have := ih heq
        simp only [encode_cons, List.length_append] at this ⊢
        omega

lemma keyValue_length (pair : List Char) :
    (encode (keyValue pair).1).length + (encode (keyValue pair).2).length ≤ (encode pair).length := by
  unfold keyValue
  cases h : splitOnce '=' pair with
  | none => exact Nat.le_refl _
  | some p => exact splitOnce_length h

lemma split_ne_nil (sep : Char) (text : List Char) : Http.split sep text ≠ [] := by
  induction text with
  | nil => exact List.cons_ne_nil _ _
  | cons c text ih =>
      rw [Http.split]
      split_ifs
      · exact List.cons_ne_nil _ _
      · simpa using ih

lemma split_length (sep : Char) (text : List Char) :
    ((Http.split sep text).map fun pair => (encode pair).length).sum ≤ (encode text).length := by
  induction text with
  | nil => exact Nat.le_refl _
  | cons c text ih =>
      rw [encode_cons, List.length_append, Http.split]
      split_ifs
      · rw [List.map_cons, List.sum_cons, encode_nil, List.length_nil]
        omega
      · obtain ⟨pair, pairs, heq⟩ := List.exists_cons_of_ne_nil (split_ne_nil sep text)
        rw [heq] at ih ⊢
        rw [List.map_cons, List.sum_cons] at ih
        rw [List.modifyHead_cons, List.map_cons, List.sum_cons, encode_cons, List.length_append]
        omega

/-- The parts decode to no more bytes than the form has. -/
lemma parts_length (text : List Char) :
    ((parts text).map decodedBytes).sum ≤ (encode text).length := by
  have hpairs : ∀ l : List (List Char),
      (((l.map keyValue).flatMap fun p => [p.1, p.2]).map decodedBytes).sum ≤
        (l.map fun pair => (encode pair).length).sum := by
    intro l
    induction l with
    | nil => exact Nat.le_refl _
    | cons pair l ih =>
        have hk := percentDecode_length true (encode (keyValue pair).1)
        have hv := percentDecode_length true (encode (keyValue pair).2)
        have := keyValue_length pair
        simp only [List.map_cons, List.flatMap_cons, List.cons_append, List.nil_append,
          List.sum_cons, decodedBytes] at ih ⊢
        omega
  unfold parts pairs
  split_ifs
  · exact Nat.le_trans (hpairs _) (split_length _ _)
  · exact Nat.zero_le _

/-! ## Forms within the limits -/

lemma mem_parts {text : List Char} {p : List Char × List Char} (h : p ∈ pairs text) :
    p.1 ∈ parts text ∧ p.2 ∈ parts text := by
  unfold parts
  exact ⟨List.mem_flatMap.2 ⟨p, h, by simp⟩, List.mem_flatMap.2 ⟨p, h, by simp⟩⟩

lemma form_not_utf8 {v : Value} {bytes : List UInt8} (hbytes : v.bytes? = some bytes)
    (hsize : bytes.length ≤ bodyMax) (h : ¬∃ text, bytes = encode text) :
    form v = .error "web: parse_form body is not UTF-8" := by
  unfold form withBytes
  rw [hbytes]
  simp only [bounded_ok hsize, bind, Except.bind]
  rw [if_neg (fun herror => h (fromUtf8_ok_iff.1 herror))]

lemma form_eq {v : Value} {text : List Char} (hbytes : v.bytes? = some (encode text))
    (hsize : (encode text).length ≤ bodyMax) (hcount : pairCount text ≤ pairsMax) :
    form v = (measure 0 (parts text)).bind fun _ => insertPairs [] (pairs text) := by
  unfold form withBytes
  rw [hbytes]
  simp only [bounded_ok hsize, bind, Except.bind, fromUtf8_encode, if_true, bounded_ok hcount]

/-- **Streaming validation.**  `decoded_len` counts the percent-decoded bytes exactly when they are
UTF-8, `decode` never fails after it, and a form within the limits fails at any part that is not
UTF-8 and otherwise has for each key the value of its first pair. -/
theorem parse_form_decodes {v : Value} {bytes : List UInt8} (hbytes : v.bytes? = some bytes)
    (hsize : bytes.length ≤ bodyMax)
    (hcount : ∀ text, bytes = encode text → pairCount text ≤ pairsMax) :
    (∀ s plus n, decodedLen s plus = .ok n ↔
      (∃ text, percentDecode plus (encode s) = encode text) ∧
        n = (percentDecode plus (encode s)).length) ∧
    (∀ s plus n, decodedLen s plus = .ok n →
      ∃ text, decode s plus = .ok text ∧ percentDecode plus (encode s) = encode text) ∧
    ((¬∃ text, bytes = encode text) → form v = .error "web: parse_form body is not UTF-8") ∧
    ∀ text, bytes = encode text →
      ((∃ part ∈ parts text, ¬∃ cs, percentDecode true (encode part) = encode cs) →
        form v = .error notUtf8) ∧
      ((∀ part ∈ parts text, ∃ cs, percentDecode true (encode part) = encode cs) →
        ∃ out, form v = .ok out ∧ ∀ key : String, out.lookup key = firstValue (pairs text) key) := by
  have hsome : ∀ {s : List Char} {plus : Bool}, component s plus = none ↔
      ¬∃ cs, percentDecode plus (encode s) = encode cs := by
    intro s plus
    rw [component_eq_none, Ne, fromUtf8_ok_iff]
  have hok : ∀ s plus n, decodedLen s plus = .ok n ↔
      (∃ text, percentDecode plus (encode s) = encode text) ∧
        n = (percentDecode plus (encode s)).length := by
    intro s plus n
    rw [decodedLen_eq, ← fromUtf8_ok_iff]
    split_ifs with h
    · simp only [h, true_and, Except.ok.injEq, eq_comm]
    · simp [h]
  refine ⟨hok, ?_, form_not_utf8 hbytes hsize, ?_⟩
  · intro s plus n h
    obtain ⟨⟨text, htext⟩, -⟩ := (hok s plus n).1 h
    exact ⟨text, by rw [decode_eq, component_eq_some.2 htext], htext⟩
  · rintro text rfl
    have htotal : 0 + ((parts text).map decodedBytes).sum ≤ bodyMax := by
      rw [Nat.zero_add]
      exact Nat.le_trans (parts_length text) hsize
    have hmeasure := measure_eq htotal
    rw [form_eq hbytes hsize (hcount text rfl)]
    constructor
    · rintro ⟨part, hmem, hpart⟩
      rw [hmeasure.1 ⟨part, hmem, hsome.2 hpart⟩]
      rfl
    · intro hall
      have hparts : ∀ part ∈ parts text, component part true ≠ none := fun part hmem hnone =>
        hsome.1 hnone (hall part hmem)
      rw [hmeasure.2 hparts]
      have hpairs : ∀ p ∈ pairs text, component p.1 true ≠ none ∧ component p.2 true ≠ none :=
        fun p hp => ⟨hparts _ (mem_parts hp).1, hparts _ (mem_parts hp).2⟩
      obtain ⟨out, heq, hget⟩ := insertPairs_eq [] hpairs
      refine ⟨out, heq, fun key => ?_⟩
      rw [hget]
      rfl

/-- A form with a key twice, the second value with a plus. -/
theorem parse_form_decodes_twice :
    ∃ out, form (.string "a=%41&a=x+y".toList) = .ok out ∧
      out.lookup "a" = some (.string ['A']) := by
  have htext : ∀ text, encode "a=%41&a=x+y".toList = encode text → text = "a=%41&a=x+y".toList :=
    fun text h => (encode_injective h).symm
  have h := parse_form_decodes (v := .string "a=%41&a=x+y".toList) rfl (by decide) fun text heq => by
    rw [htext text heq]
    decide
  obtain ⟨out, heq, hget⟩ := (h.2.2.2 _ rfl).2 (by
    intro part hmem
    have hcases : part = ['a'] ∨ part = ['%', '4', '1'] ∨ part = ['x', '+', 'y'] := by
      have : part ∈ [['a'], ['%', '4', '1'], ['a'], ['x', '+', 'y']] := hmem
      simp at this
      tauto
    obtain rfl | rfl | rfl := hcases
    · exact ⟨['a'], by decide⟩
    · exact ⟨['A'], by decide⟩
    · exact ⟨['x', ' ', 'y'], by decide⟩)
  refine ⟨out, heq, ?_⟩
  rw [hget]
  have hkey : component ['a'] true = some ['a'] := component_eq_some.2 (by decide)
  have hvalue : component ['%', '4', '1'] true = some ['A'] := component_eq_some.2 (by decide)
  have hpairs : pairs "a=%41&a=x+y".toList = [(['a'], ['%', '4', '1']), (['a'], ['x', '+', 'y'])] := by
    decide
  rw [hpairs, firstValue, List.find?_cons_of_pos (by rw [hkey]; decide), Option.bind_some, hvalue]
  rfl

end Web

end Rnx
