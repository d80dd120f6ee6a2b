import Mathlib.Data.List.DropRight
import Rnx.Host.Numbering

/-!
# Generated source maps back to typed text

A unit is generated out of pieces: what a person typed, with the place it was typed at, and what the
session writes around it.  The map of the unit says, for a byte of it, where that byte was typed.

* `locate_assemble`: a byte of a typed piece is located at its place, any other nowhere.
* `Placed`: every retained declaration is, byte for byte, the text at its place.
* `maps_back`: the map of a generated unit is right about every byte that was typed.
* `not_maps_back_line_break`: the line break that closes the wrapper is located past the input's end.
-/

namespace Rnx

namespace Host.Evaluation

open Std (TreeMap TreeSet)

/-! ## Bytes -/

/-- The bytes of a text. -/
def bytes (text : String) : List UInt8 := text.toByteArray.data.toList

lemma length_bytes (text : String) : (bytes text).length = text.utf8ByteSize := rfl

lemma bytes_append (a b : String) : bytes (a ++ b) = bytes a ++ bytes b := by
  unfold bytes
  rw [String.toByteArray_append, ByteArray.toList_data_append]

lemma bytes_ofList_append (a b : List Char) :
    bytes (String.ofList (a ++ b)) = bytes (String.ofList a) ++ bytes (String.ofList b) := by
  rw [String.ofList_append, bytes_append]

/-- A byte of a slice is a byte of the text. -/
lemma bytes_slice {text : String} {start stop k : Nat}
    (hk : k < (slice text start stop).utf8ByteSize) :
    start + k < stop ∧ (bytes (slice text start stop))[k]? = (bytes text)[start + k]? := by
  unfold slice at hk ⊢
  unfold String.fromUTF8? at hk ⊢
  split_ifs at hk ⊢ with hvalid
  · have hbytes : bytes ((some (String.fromUTF8 (text.toUTF8.extract start stop) hvalid)).getD "") =
        ((bytes text).drop start).take (stop - start) := by
      change (text.toUTF8.extract start stop).data.toList = _
      rw [ByteArray.data_extract, Array.toList_extract]
      rfl
    rw [← length_bytes, hbytes, List.length_take, List.length_drop] at hk
    refine ⟨by omega, ?_⟩
    rw [hbytes, List.getElem?_take_of_lt (by omega), List.getElem?_drop]
  · cases hk

/-- The last byte of a character that is a line break's is a line break's. -/
lemma utf8EncodeChar_getLast {c : Char} (h : (String.utf8EncodeChar c).getLast? = some 10) :
    c = '\n' := by
  have hof : ∀ n : Nat, UInt8.ofNat n = 10 → n % 256 = 10 := by
    intro n hn
    have := congrArg UInt8.toNat hn
    simpa using this
  have hval : c.val.toNat = 10 := by
    unfold String.utf8EncodeChar at h
    generalize c.val.toNat = v at h
    simp only at h
    split_ifs at h with h1
    all_goals
      have hn := hof _ (Option.some.inj h)
      omega
  exact Char.ext (UInt32.toNat_inj.1 hval)

/-- A text that ends in the byte of a line break ends in a line break. -/
lemma getLast_of_bytes {l : List Char} {c : Char}
    (h : (bytes (String.ofList (l ++ [c]))).getLast? = some 10) : c = '\n' := by
  have hc : bytes (String.ofList [c]) = String.utf8EncodeChar c := by
    unfold bytes
    rw [String.toByteArray_ofList, List.utf8Encode_singleton, List.toList_data_toByteArray]
  rw [bytes_ofList_append, hc, List.getLast?_append, Option.or_eq_some_iff] at h
  rcases h with h | ⟨h, -⟩
  · exact utf8EncodeChar_getLast h
  · exact (String.utf8EncodeChar_ne_nil (List.getLast?_eq_none_iff.1 h)).elim

/-! ## Trimming -/

lemma trimEnd_eq (text : String) :
    trimEnd text = String.ofList (text.toList.rdropWhile isWhitespace) := rfl

/-- What is left of a text that is trimmed stands in it after its leading white space, and does not end
in white space. -/
lemma trimmed_spec (text : String) :
    (∀ k, k < (trimStart (trimEnd text)).utf8ByteSize →
      (bytes (trimStart (trimEnd text)))[k]? =
        (bytes text)[text.utf8ByteSize - (trimStart text).utf8ByteSize + k]?) ∧
    ∀ l c, (trimStart (trimEnd text)).toList = l ++ [c] → isWhitespace c = false := by
  have hsource : trimStart (trimEnd text) =
      String.ofList ((text.toList.rdropWhile isWhitespace).dropWhile isWhitespace) := by
    rw [trimEnd_eq, trimStart, String.toList_ofList]
  have hparts := List.takeWhile_append_dropWhile (p := isWhitespace)
    (l := text.toList.rdropWhile isWhitespace)
  have hall := List.rdropWhile_append_rtakeWhile (p := isWhitespace) (l := text.toList)
  have hlast := List.rdropWhile_last_not isWhitespace text.toList
  rw [hsource, String.toList_ofList]
  rcases hm : (text.toList.rdropWhile isWhitespace).dropWhile isWhitespace with _ | ⟨x, m⟩
  · refine ⟨fun k hk => ?_, fun l c hl => ?_⟩
    · exact absurd hk (by simp)
    · simp at hl
  rw [hm] at hparts
  refine ⟨fun k hk => ?_, fun l c hl => ?_⟩
  · have hstart : trimStart text =
        String.ofList (x :: m ++ text.toList.rtakeWhile isWhitespace) := by
      rw [trimStart]
      conv_lhs => rw [← hall]
      rw [List.dropWhile_append, hm]
      rfl
    have htext : text = String.ofList
        ((text.toList.rdropWhile isWhitespace).takeWhile isWhitespace ++
          (x :: m ++ text.toList.rtakeWhile isWhitespace)) := by
      rw [← List.append_assoc, hparts, hall, String.ofList_toList]
    have hbytes : bytes text = bytes (String.ofList
          ((text.toList.rdropWhile isWhitespace).takeWhile isWhitespace)) ++
        (bytes (String.ofList (x :: m)) ++
          bytes (String.ofList (text.toList.rtakeWhile isWhitespace))) := by
      rw [← bytes_ofList_append, ← bytes_ofList_append, ← htext]
    have hlen := congrArg List.length hbytes
    have hrest := congrArg List.length (bytes_ofList_append (x :: m)
      (text.toList.rtakeWhile isWhitespace))
    rw [List.length_append, List.length_append] at hlen
    rw [List.length_append] at hrest
    simp only [length_bytes] at hlen hrest
    rw [hstart, hbytes, List.getElem?_append_right (by rw [length_bytes]; omega), length_bytes,
      List.getElem?_append_left (by rw [length_bytes]; omega)]
    exact congrArg _ (by omega)
  · have hne : text.toList.rdropWhile isWhitespace ≠ [] := by
      intro hnil
      rw [hnil] at hm
      cases hm
    have hget := hlast hne
    have hend : (text.toList.rdropWhile isWhitespace).getLast hne = c := by
      have hcat : text.toList.rdropWhile isWhitespace =
          ((text.toList.rdropWhile isWhitespace).takeWhile isWhitespace ++ l) ++ [c] := by
        rw [List.append_assoc, ← hl, hparts]
      rw [List.getLast_congr hne (by simp) hcat, List.getLast_concat]
    rw [hend] at hget
    simpa using hget

/-! ## The wrapped input -/

lemma bytes_wrap (input : String) : bytes (wrap input) = 123 :: (bytes input ++ [10, 125]) := by
  unfold wrap
  rw [bytes_append, bytes_append]
  rfl

/-- Before the closing brace, a byte of the wrapped input is a byte of the input or the line break that
follows it. -/
lemma bytes_wrap_getElem? (input : String) (i : Nat) (h1 : 1 ≤ i) (h2 : i < input.utf8ByteSize + 2) :
    (bytes (wrap input))[i]? = (bytes input)[i - 1]? ∧ i - 1 < input.utf8ByteSize ∨
      i - 1 = input.utf8ByteSize ∧ (bytes (wrap input))[i]? = some 10 := by
  obtain ⟨j, rfl⟩ := Nat.exists_eq_add_of_le' h1
  rw [bytes_wrap, List.getElem?_cons_succ, Nat.add_sub_cancel]
  rcases Nat.lt_or_ge j input.utf8ByteSize with hj | hj
  · exact .inl ⟨List.getElem?_append_left (by rwa [length_bytes]), hj⟩
  · have heq : j = input.utf8ByteSize := by omega
    refine .inr ⟨heq, ?_⟩
    rw [List.getElem?_append_right (by rw [length_bytes]; omega), length_bytes, heq, Nat.sub_self]
    rfl

/-! ## Pieces -/

/-- A piece of generated source: the session's own, or a text with the input and the offset it was typed
at. -/
inductive Piece
  | raw (text : String)
  | user (text : String) (input offset : Nat)
deriving DecidableEq

namespace Piece

/-- The text of a piece. -/
def text : Piece → String
  | raw text => text
  | user text _ _ => text

/-- A piece written into a generated source. -/
def write (g : Generated) : Piece → Generated
  | raw text => g.raw text
  | user text input offset => g.user text input offset

/-- The segment of a piece that begins at `base`. -/
def segment (base : Nat) : Piece → List Segment
  | raw _ => []
  | user text input offset => [⟨base, base + text.utf8ByteSize, input, offset⟩]

/-- The place of a byte of a piece. -/
def place (k : Nat) : Piece → Option (Nat × Nat)
  | raw _ => none
  | user _ input offset => some (input, offset + k)

end Piece

/-- The source generated out of pieces. -/
def assemble (ps : List Piece) : Generated := ps.foldl Piece.write Generated.new

/-- The piece a byte belongs to, and its index there. -/
def pieceAt : List Piece → Nat → Option (Piece × Nat)
  | [], _ => none
  | p :: ps, i =>
      if i < p.text.utf8ByteSize then some (p, i) else pieceAt ps (i - p.text.utf8ByteSize)

/-- The segments of pieces that begin at `base`. -/
def segmentsFrom (base : Nat) : List Piece → List Segment
  | [] => []
  | p :: ps => p.segment base ++ segmentsFrom (base + p.text.utf8ByteSize) ps

lemma write_text (g : Generated) (p : Piece) : (p.write g).text = g.text ++ p.text := by
  cases p <;> rfl

lemma write_map (g : Generated) (p : Piece) :
    (p.write g).map = g.map ++ p.segment g.text.utf8ByteSize := by
  cases p with
  | raw text => exact (List.append_nil _).symm
  | user text input offset => rfl

lemma foldl_write (ps : List Piece) (g : Generated) :
    bytes (ps.foldl Piece.write g).text = bytes g.text ++ ps.flatMap (bytes ·.text) ∧
      (ps.foldl Piece.write g).map = g.map ++ segmentsFrom g.text.utf8ByteSize ps := by
  induction ps generalizing g with
  | nil => simp [segmentsFrom]
  | cons p ps ih =>
      obtain ⟨htext, hmap⟩ := ih (p.write g)
      rw [List.foldl_cons, htext, hmap, write_text, write_map, bytes_append,
        String.utf8ByteSize_append]
      exact ⟨by simp, by simp [segmentsFrom]⟩

lemma assemble_bytes (ps : List Piece) : bytes (assemble ps).text = ps.flatMap (bytes ·.text) :=
  (foldl_write ps Generated.new).1

lemma assemble_map (ps : List Piece) : (assemble ps).map = segmentsFrom 0 ps :=
  (foldl_write ps Generated.new).2

/-- A byte of the generated source is the byte of its piece. -/
lemma bytes_pieceAt {ps : List Piece} {p : Piece} {i k : Nat} (h : pieceAt ps i = some (p, k)) :
    p ∈ ps ∧ k < p.text.utf8ByteSize ∧ (ps.flatMap (bytes ·.text))[i]? = (bytes p.text)[k]? := by
  induction ps generalizing i with
  | nil => cases h
  | cons q ps ih =>
      unfold pieceAt at h
      rw [List.flatMap_cons]
      split_ifs at h with hlt
      · obtain ⟨rfl, rfl⟩ := Prod.mk.inj (Option.some.inj h)
        exact ⟨List.mem_cons_self, hlt, List.getElem?_append_left (by rwa [length_bytes])⟩
      · obtain ⟨hmem, hk, hbyte⟩ := ih h
        refine ⟨List.mem_cons_of_mem _ hmem, hk, ?_⟩
        rw [List.getElem?_append_right (by rw [length_bytes]; omega), length_bytes, hbyte]

lemma segmentsFrom_start {ps : List Piece} {base : Nat} {seg : Segment}
    (h : seg ∈ segmentsFrom base ps) : base ≤ seg.start ∧ seg.start ≤ seg.stop := by
  induction ps generalizing base with
  | nil => cases h
  | cons p ps ih =>
      rcases List.mem_append.1 h with h | h
      · cases p with
        | raw text => cases h
        | user text input offset =>
            obtain rfl := List.mem_singleton.1 h
            exact ⟨Nat.le_refl _, Nat.le_add_right _ _⟩
      · have := ih h
        omega

/-- The segments are in order and do not overlap. -/
lemma segmentsFrom_increasing (ps : List Piece) (base : Nat) :
    (segmentsFrom base ps).Pairwise fun a b => a.stop ≤ b.start := by
  induction ps generalizing base with
  | nil => exact .nil
  | cons p ps ih =>
      refine List.pairwise_append.2 ⟨?_, ih _, ?_⟩
      · cases p with
        | raw text => exact .nil
        | user text input offset => exact List.pairwise_singleton _ _
      · intro a ha b hb
        cases p with
        | raw text => cases ha
        | user text input offset =>
            obtain rfl := List.mem_singleton.1 ha
            exact (segmentsFrom_start hb).1

lemma locate_append {a b : List Segment} {i : Nat} :
    locate (a ++ b) i = (locate a i).or (locate b i) := by
  unfold locate
  rw [List.find?_append]
  rcases a.find? _ <;> rfl

lemma locate_before {ps : List Piece} {base i : Nat} (h : i < base) :
    locate (segmentsFrom base ps) i = none := by
  unfold locate
  rw [Option.map_eq_none_iff, List.find?_eq_none]
  intro seg hseg
  have := (segmentsFrom_start hseg).1
  simp only [decide_eq_true_eq]
  omega

/-- A byte of a typed piece is located at its place, any other nowhere. -/
lemma locate_segmentsFrom (ps : List Piece) (base i : Nat) :
    locate (segmentsFrom base ps) (base + i) = (pieceAt ps i).bind fun p => p.1.place p.2 := by
  induction ps generalizing base i with
  | nil => rfl
  | cons p ps ih =>
      unfold segmentsFrom pieceAt
      rw [locate_append]
      split_ifs with hlt
      · rw [locate_before (by omega), Option.or_none]
        cases p with
        | raw text => rfl
        | user text input offset =>
            have hlt : i < text.utf8ByteSize := hlt
            simp [locate, Piece.segment, Piece.place, hlt]
      · have hnone : locate (p.segment base) (base + i) = none := by
          cases p with
          | raw text => rfl
          | user text input offset =>
              have hge : ¬ i < text.utf8ByteSize := hlt
              simp [locate, Piece.segment, hge]
        have hsplit : base + i = base + p.text.utf8ByteSize + (i - p.text.utf8ByteSize) := by omega
        rw [hnone, Option.none_or, hsplit, ih]

lemma locate_assemble (ps : List Piece) (i : Nat) :
    locate (assemble ps).map i = (pieceAt ps i).bind fun p => p.1.place p.2 := by
  have := locate_segmentsFrom ps 0 i
  rwa [Nat.zero_add, ← assemble_map] at this

/-! ## What stands where -/

variable {s t : Session} {w : World} {input : String} {number : Nat} {inputs : List String}
  {p q : Parts} {block : Block}

/-- The spans of a parsed block lie inside the wrapped input, between its braces. -/
structure Block.Inside (wrapped : String) (b : Block) : Prop where
  starts : ∀ st ∈ b.statements, 1 ≤ st.start ∧ st.start ≤ b.close
  close : b.close < wrapped.utf8ByteSize
  exprs : ∀ st ∈ b.statements, ∀ span, st.stmt = .expr span → 1 ≤ span.start ∧ span.stop ≤ b.close

/-- Byte `k` of a text is the byte of the input that many bytes after the offset. -/
def SameByte (inputs : List String) (text : String) (input offset k : Nat) : Prop :=
  1 ≤ input ∧ ∃ typed, inputs[input - 1]? = some typed ∧ offset + k < typed.utf8ByteSize ∧
    (bytes text)[k]? = (bytes typed)[offset + k]?

/-- Byte `k` of a text is the line break after the input, and its place the input's end. -/
def LineBreak (inputs : List String) (text : String) (input offset k : Nat) : Prop :=
  1 ≤ input ∧ ∃ typed, inputs[input - 1]? = some typed ∧ offset + k = typed.utf8ByteSize ∧
    (bytes text)[k]? = some 10

/-- Byte `k` of a text is the semicolon written after an expression statement. -/
def Semicolon (wrapped : String) (b : Block) (text : String) (offset k : Nat) : Prop :=
  ∃ st ∈ b.statements, (∃ span, st.stmt = .expr span) ∧ offset = st.start - 1 ∧ ∃ stop,
    text = slice wrapped st.start stop ++ ";" ∧ k = (slice wrapped st.start stop).utf8ByteSize

lemma SameByte.append {text : String} {i offset k : Nat} (h : SameByte inputs text i offset k)
    (more : List String) : SameByte (inputs ++ more) text i offset k := by
  obtain ⟨hi, typed, htyped, hrest⟩ := h
  obtain ⟨hlt, -⟩ := List.getElem?_eq_some_iff.1 htyped
  exact ⟨hi, typed, by rw [List.getElem?_append_left hlt]; exact htyped, hrest⟩

/-- Every declaration is, byte for byte, the text at its place. -/
def Placed (inputs : List String) (declarations : TreeMap String Declaration) : Prop :=
  ∀ (name : String) (d : Declaration), declarations[name]? = some d → ∀ k, k < d.source.utf8ByteSize →
    SameByte inputs d.source d.input d.offset k

/-- A byte of a slice of the wrapped input. -/
lemma slice_wrap {start stop k : Nat} (hinput : inputs[number - 1]? = some input)
    (hnumber : 1 ≤ number) (hstart : 1 ≤ start) (hstop : stop < (wrap input).utf8ByteSize)
    (hk : k < (slice (wrap input) start stop).utf8ByteSize) :
    SameByte inputs (slice (wrap input) start stop) number (start - 1) k ∨
      LineBreak inputs (slice (wrap input) start stop) number (start - 1) k := by
  obtain ⟨hlt, hbyte⟩ := bytes_slice hk
  have hsize : (wrap input).utf8ByteSize = input.utf8ByteSize + 3 := by
    rw [← length_bytes, bytes_wrap]
    simp [length_bytes]
  have hindex : start + k - 1 = start - 1 + k := by omega
  rcases bytes_wrap_getElem? input (start + k) (by omega) (by omega) with
    ⟨hsame, hin⟩ | ⟨hend, hten⟩
  · rw [hindex] at hsame hin
    exact .inl ⟨hnumber, input, hinput, hin, hbyte.trans hsame⟩
  · rw [hindex] at hend
    exact .inr ⟨hnumber, input, hinput, hend, hbyte.trans hten⟩

/-- What is declared is text of the input: what was trimmed off holds the line break. -/
lemma trimmed_wrap {start stop k : Nat} (hinput : inputs[number - 1]? = some input)
    (hnumber : 1 ≤ number) (hstart : 1 ≤ start) (hstop : stop < (wrap input).utf8ByteSize)
    (hk : k < (trimStart (trimEnd (slice (wrap input) start stop))).utf8ByteSize) :
    SameByte inputs (trimStart (trimEnd (slice (wrap input) start stop))) number
      (start + ((slice (wrap input) start stop).utf8ByteSize -
        (trimStart (slice (wrap input) start stop)).utf8ByteSize) - 1) k := by
  obtain ⟨hbytes, hlast⟩ := trimmed_spec (slice (wrap input) start stop)
  generalize hlead : (slice (wrap input) start stop).utf8ByteSize -
    (trimStart (slice (wrap input) start stop)).utf8ByteSize = lead at hbytes ⊢
  generalize htrimmed : trimStart (trimEnd (slice (wrap input) start stop)) = source
    at hbytes hlast hk ⊢
  have hin : ∀ j, j < source.utf8ByteSize →
      lead + j < (slice (wrap input) start stop).utf8ByteSize := by
    intro j hj
    have hsome : (bytes source)[j]? ≠ none := by
      rw [Ne, List.getElem?_eq_none_iff, length_bytes]
      omega
    rw [hbytes j hj, Ne, List.getElem?_eq_none_iff, length_bytes] at hsome
    omega
  have hoffset : start + lead - 1 + k = start - 1 + (lead + k) := by omega
  rcases slice_wrap hinput hnumber hstart hstop (hin k hk) with
    ⟨-, typed, htyped, hlt, hbyte⟩ | ⟨-, typed, htyped, hend, hten⟩
  · refine ⟨hnumber, typed, htyped, by rw [hoffset]; exact hlt, ?_⟩
    rw [hbytes k hk, hbyte, hoffset]
  · -- The line break is the last byte of the slice, so it would end the source too.
    exfalso
    obtain rfl := Option.some.inj (hinput.symm.trans htyped)
    have hlastbyte : k + 1 = source.utf8ByteSize := by
      by_contra hne
      have hlt := (bytes_slice (hin (k + 1) (by omega))).1
      have hsize : (wrap input).utf8ByteSize = input.utf8ByteSize + 3 := by
        rw [← length_bytes, bytes_wrap]
        simp [length_bytes]
      omega
    have hne : source.toList ≠ [] := by
      intro hnil
      have hempty : source = "" := by rw [← String.ofList_toList (s := source), hnil]
      rw [hempty] at hk
      cases hk
    have hsplit := List.dropLast_append_getLast hne
    have hws := hlast _ _ hsplit.symm
    have hbreak : source.toList.getLast hne = '\n' := by
      refine getLast_of_bytes (l := source.toList.dropLast) ?_
      rw [hsplit, String.ofList_toList, List.getLast?_eq_getElem?, length_bytes]
      have hpred : source.utf8ByteSize - 1 = k := by omega
      rw [hpred, hbytes k hk]
      exact hten
    rw [hbreak] at hws
    exact absurd hws (by decide)

/-! ## Taking the parts of an input -/

/-- The byte of a typed piece: the one at its place, but for what the session adds to a statement. -/
def Typed (inputs : List String) (wrapped : String) (b : Block) (text : String)
    (input offset k : Nat) : Prop :=
  SameByte inputs text input offset k ∨ Semicolon wrapped b text offset k ∨
    LineBreak inputs text input offset k

/-- The parts taken from an input and from the session stand where they say. -/
structure Parts.Placed (inputs : List String) (number : Nat) (wrapped : String) (b : Block)
    (p : Parts) : Prop where
  declarations : Evaluation.Placed inputs p.declarations
  statements : ∀ t ∈ p.statements, ∀ k, k < t.1.utf8ByteSize →
    Typed inputs wrapped b t.1 number t.2 k
  result : p.resultIsUser = true → ∀ k, k < p.result.1.utf8ByteSize →
    Typed inputs wrapped b p.result.1 number p.result.2 k

lemma Placed.insert {declarations : TreeMap String Declaration} (h : Placed inputs declarations)
    {name : String} {d : Declaration} (hd : ∀ k, k < d.source.utf8ByteSize →
      SameByte inputs d.source d.input d.offset k) : Placed inputs (declarations.insert name d) := by
  intro name' d' hget
  rw [TreeMap.getElem?_insert] at hget
  split_ifs at hget with heq
  · obtain rfl := Option.some.inj hget
    exact hd
  · exact h name' d' hget

section Take

variable (hinput : inputs[number - 1]? = some input) (hnumber : 1 ≤ number)
  (hin : block.Inside (wrap input))

include hinput hnumber hin

lemma declare_placed {st : Statement} {stop : Nat} {item : Item} (hst : st ∈ block.statements)
    (hstop : stop ≤ block.close) (hp : p.Placed inputs number (wrap input) block)
    (h : declare s number (wrap input) st.start (slice (wrap input) st.start stop) item p = .ok q) :
    q.Placed inputs number (wrap input) block := by
  unfold declare at h
  split at h
  · cases h
  · obtain ⟨-, -, h⟩ := Except.bind_eq_ok.1 h
    simp only at h
    split_ifs at h
    obtain rfl := Except.ok.inj h
    obtain ⟨hone, -⟩ := hin.starts st hst
    exact ⟨hp.declarations.insert fun k => trimmed_wrap hinput hnumber hone
      (Nat.lt_of_le_of_lt hstop hin.close), hp.statements, hp.result⟩

lemma takeStatement_placed {st : Statement} {stop : Nat} {last : Bool}
    (hst : st ∈ block.statements) (hstop : stop ≤ block.close)
    (hp : p.Placed inputs number (wrap input) block)
    (h : takeStatement s number (wrap input) st.start stop last st.stmt p = .ok q) :
    q.Placed inputs number (wrap input) block := by
  obtain ⟨hone, hle⟩ := hin.starts st hst
  have hslice : ∀ k, k < (slice (wrap input) st.start stop).utf8ByteSize → _ ∨ _ :=
    fun k => slice_wrap hinput hnumber hone (Nat.lt_of_le_of_lt hstop hin.close)
  have hadd : ∀ text, (∀ k, k < text.utf8ByteSize →
      Typed inputs (wrap input) block text number (st.start - 1) k) →
      ∀ t ∈ p.statements ++ [(text, st.start - 1)], ∀ k, k < t.1.utf8ByteSize →
        Typed inputs (wrap input) block t.1 number t.2 k := by
    intro text htext t ht
    rcases List.mem_append.1 ht with ht | ht
    · exact hp.statements t ht
    · obtain rfl := List.mem_singleton.1 ht
      exact htext
  have hplain : ∀ k, k < (slice (wrap input) st.start stop).utf8ByteSize →
      Typed inputs (wrap input) block (slice (wrap input) st.start stop) number (st.start - 1) k := by
    intro k hk
    rcases hslice k hk with h | h
    · exact .inl h
    · exact .inr (.inr h)
  unfold takeStatement at h
  rcases hs : st.stmt with item | pat | span | _ | _
  · rw [hs] at h
    exact declare_placed hinput hnumber hin hst hstop hp h
  · rw [hs] at h
    obtain ⟨names, -, h⟩ := Except.bind_eq_ok.1 h
    obtain rfl := Except.ok.inj h
    exact ⟨hp.declarations, hadd _ hplain, hp.result⟩
  · rw [hs] at h
    simp only at h
    split_ifs at h with hlast
    · obtain rfl := Except.ok.inj h
      refine ⟨hp.declarations, hp.statements, fun _ => ?_⟩
      obtain ⟨h1, h2⟩ := hin.exprs st hst span hs
      dsimp only [Span.text]
      intro k hk
      rcases slice_wrap hinput hnumber h1 (Nat.lt_of_le_of_lt h2 hin.close) hk with h | h
      · exact .inl h
      · exact .inr (.inr h)
    · obtain rfl := Except.ok.inj h
      refine ⟨hp.declarations, hadd _ fun k hk => ?_, hp.result⟩
      rw [String.utf8ByteSize_append] at hk
      rcases Nat.lt_or_ge k (slice (wrap input) st.start stop).utf8ByteSize with hlt | hge
      · have hkeep : (bytes (slice (wrap input) st.start stop ++ ";"))[k]? =
            (bytes (slice (wrap input) st.start stop))[k]? := by
          rw [bytes_append, List.getElem?_append_left (by rwa [length_bytes])]
        rcases hslice k hlt with ⟨hi, typed, htyped, hrest, hbyte⟩ | ⟨hi, typed, htyped, hrest, hbyte⟩
        · exact .inl ⟨hi, typed, htyped, hrest, hkeep.trans hbyte⟩
        · exact .inr (.inr ⟨hi, typed, htyped, hrest, hkeep.trans hbyte⟩)
      · have hone : (";" : String).utf8ByteSize = 1 := rfl
        exact .inr (.inl ⟨st, hst, ⟨span, hs⟩, rfl, stop, rfl, by omega⟩)
  · rw [hs] at h
    obtain rfl := Except.ok.inj h
    exact ⟨hp.declarations, hadd _ hplain, hp.result⟩
  · rw [hs] at h
    cases h

lemma takeStatements_placed {sts : List Statement} (hsts : ∀ st ∈ sts, st ∈ block.statements)
    (hp : p.Placed inputs number (wrap input) block)
    (h : takeStatements s number (wrap input) block.close sts p = .ok q) :
    q.Placed inputs number (wrap input) block := by
  induction sts generalizing p with
  | nil =>
      obtain rfl := Except.ok.inj h
      exact hp
  | cons st sts ih =>
      rw [List.forall_mem_cons] at hsts
      obtain ⟨r, hr, hrest⟩ := Except.bind_eq_ok.1 h
      refine ih hsts.2 (takeStatement_placed hinput hnumber hin hsts.1 ?_ hp hr) hrest
      cases sts with
      | nil => exact Nat.le_refl _
      | cons next _ => exact (hin.starts next (hsts.2 next List.mem_cons_self)).2

end Take

/-! ## Along a run -/

/-- The parser's spans lie inside what it parses. -/
def World.SpansInside (w : World) (input : String) : Prop :=
  ∀ block, w.parse (wrap input) = .ok block → block.Inside (wrap input)

/-- Whatever an event parses has its spans inside. -/
def Event.SpansInside : Event → Prop
  | .eval w _ input => w.SpansInside input
  | _ => True

/-- What an evaluation takes from its input, it takes from the parsed block. -/
lemma prepare_parts (w : World) (input : String) (number : Nat) (s : Session) :
    (prepare w input number).wp
      (fun prepared _ => ∃ block, w.parse (wrap input) = .ok block ∧
        takeStatements s number (wrap input) block.close block.statements
          ⟨s.declarations, s.names, [], ("()", 0), false⟩ = .ok prepared.parts)
      (fun _ _ => True) s := by
  apply ErrState.wp_get_bind.2
  apply ErrState.wp_ofExcept_bind (fun _ _ => trivial)
  intro block hblock
  have hparse : w.parse (wrap input) = .ok block := by
    rcases hp : w.parse (wrap input) with x | b
    · rw [hp] at hblock
      cases hblock
    · rw [hp] at hblock
      exact congrArg Except.ok (Except.ok.inj hblock)
  apply ErrState.wp_ofExcept_bind (fun _ _ => trivial)
  intro parts hparts
  apply ErrState.wp_ofExcept_bind (fun _ _ => trivial)
  intro state _
  refine ErrState.wp_seq (Q := fun _ _ => True) (F := fun _ _ => True) ?_ (fun _ _ _ => trivial) ?_
  · exact ErrState.wp_mono (compileEither_numbers w _ s) (fun _ _ _ => trivial) fun _ _ _ => trivial
  intro ⟨generated, awaits, unit⟩ t _
  apply ErrState.wp_update_bind.2
  split
  · trivial
  · apply ErrState.wp_update_bind.2
    apply ErrState.wp_get_bind.2
    apply ErrState.wp_ofExcept_bind (fun _ _ => trivial)
    intro output _
    exact ⟨block, hparse, hparts⟩

lemma initial_placed (hs : Placed inputs s.declarations) :
    Parts.Placed inputs number (wrap input) block
      ⟨s.declarations, s.names, [], ("()", 0), false⟩ :=
  ⟨hs, fun _ ht => (by cases ht), fun h => by cases h⟩

/-- An evaluation leaves every retained declaration at its place. -/
lemma evalInner_placed (hparse : w.SpansInside input) (hinput : s.inputs[number - 1]? = some input)
    (hnumber : 1 ≤ number) (hs : Placed s.inputs s.declarations) :
    Placed (evalInner w input number s).2.inputs (evalInner w input number s).2.declarations := by
  have hwp : (evalInner w input number).wp (fun _ t => Placed t.inputs t.declarations)
      (fun _ t => Placed t.inputs t.declarations) s := by
    have hkeep : ∀ {t : Session}, Unchanged s t → SameNumbers s t →
        Placed t.inputs t.declarations := by
      intro t hu hn
      rw [hu.declarations, hn.inputs]
      exact hs
    refine ErrState.wp_seq (ErrState.wp_and (ErrState.wp_and (prepare_spec w input number s)
      (prepare_numbers w input number s)) (ErrState.wp_mono (prepare_parts w input number s)
      (fun _ _ h => h) fun _ _ h => h)) (fun _ t h => hkeep h.1.1 h.1.2) ?_
    rintro prepared t ⟨⟨⟨hu, -⟩, hn⟩, block, hblock, hparts⟩
    have hplaced := takeStatements_placed hinput hnumber (hparse block hblock) (fun _ h => h)
      (initial_placed hs) hparts
    refine ErrState.wp_ofExcept_bind (E := fun _ (u : Session) => Placed u.inputs u.declarations)
      (fun _ _ => hkeep hu hn) fun pair _ => ?_
    refine ErrState.wp_seq (Q := fun _ (u : Session) => u.inputs = s.inputs)
      (F := fun _ (u : Session) => Placed u.inputs u.declarations) ?_ (fun _ _ h => h) ?_
    · refine ErrState.wp_ofExcept_bind (E := fun _ (u : Session) => Placed u.inputs u.declarations)
        (fun _ _ => hkeep hu hn) fun keys _ => ?_
      exact hn.inputs
    · intro _ u hinputs
      change Placed u.inputs prepared.parts.declarations
      rw [hinputs]
      exact hplaced.declarations
  unfold ErrState.wp at hwp
  split at hwp
  · next heq => rwa [heq]
  · next heq => rwa [heq]

lemma Placed.admitted (hs : Placed s.inputs s.declarations) (input : String) :
    Placed (admitted s input).inputs (admitted s input).declarations :=
  fun name d hd k hk => (hs name d hd k hk).append [input]

lemma admitted_input (s : Session) (input : String) :
    1 ≤ (admitted s input).inputs.length ∧
      (admitted s input).inputs[(admitted s input).inputs.length - 1]? = some input := by
  simp [Evaluation.admitted]

lemma apply_placed {e : Event} (he : e.SpansInside) (hs : Placed s.inputs s.declarations) :
    Placed (e.apply s).inputs (e.apply s).declarations := by
  cases e with
  | eval w live input =>
      change Placed (evalInput w live input s).2.inputs (evalInput w live input s).2.declarations
      by_cases hadmits : admits s input = true
      · rw [evalInput_admitted hadmits]
        obtain ⟨hone, hget⟩ := admitted_input s input
        exact evalInner_placed he hget hone (hs.admitted input)
      · rwa [evalInput_refused hadmits]
  | reset =>
      intro name d hd
      exact absurd hd (by simp [Event.apply, Evaluation.reset])
  | renumber => exact hs
  | sample live =>
      change Placed (Evaluation.sample live s).inputs (Evaluation.sample live s).declarations
      unfold Evaluation.sample
      split
      · split_ifs
        · exact hs
        · exact hs
      · exact hs
  | setBudget budget => exact hs

lemma after_placed {es : List Event} (hes : ∀ e ∈ es, e.SpansInside)
    (hs : Placed s.inputs s.declarations) :
    Placed (after s es).inputs (after s es).declarations := by
  induction es generalizing s with
  | nil => exact hs
  | cons e es ih =>
      rw [List.forall_mem_cons] at hes
      exact ih hes.2 (apply_placed hes.1 hs)

lemma new_placed (ceiling budget : Nat) :
    Placed (new ceiling budget).inputs (new ceiling budget).declarations := by
  intro name d hd
  exact absurd hd (by simp [Evaluation.new])

/-! ## The pieces of a unit -/

/-- The pieces `build` writes. -/
def pieces (number : Nat) (p : Parts) (referenced delta : TreeSet String) (awaits : Bool) :
    List Piece :=
  p.declarations.toList.flatMap (fun d =>
    [.user d.2.source d.2.input d.2.offset, .raw "\n"]) ++
  [.raw (if awaits then "pub async fn main(__rnx_state) \x7b\n"
    else "pub fn main(__rnx_state) \x7b\n")] ++
  (referenced.toList.map fun name =>
    .raw ("let " ++ name ++ " = __rnx_state[\"" ++ name ++ "\"];\n")) ++
  p.statements.flatMap (fun t => [.user t.1 number t.2, .raw "\n"]) ++
  [.raw "let __rnx_result = (",
    if p.resultIsUser then .user p.result.1 number p.result.2 else .raw p.result.1,
    .raw ");\n(#\x7b", .raw (",".intercalate delta.toList), .raw "\x7d, __rnx_result)\n\x7d"]

lemma foldl_two {α : Type} (l : List α) (f : α → Piece) (g : Generated) :
    (l.flatMap fun a => [f a, .raw "\n"]).foldl Piece.write g =
      l.foldl (fun g a => ((f a).write g).raw "\n") g := by
  induction l generalizing g with
  | nil => rfl
  | cons a l ih =>
      rw [List.flatMap_cons, List.foldl_append, ih]
      rfl

lemma build_eq (number : Nat) (p : Parts) (referenced delta : TreeSet String) (awaits : Bool) :
    build number p referenced delta awaits =
      assemble (pieces number p referenced delta awaits) := by
  unfold build assemble pieces
  simp only [List.foldl_append]
  rw [foldl_two, foldl_two, List.foldl_map]
  cases p.resultIsUser <;> rfl

/-! ## The map of a unit -/

/-- What the map of a unit is to say of the pieces it was generated from: the segments are in order
and do not overlap, a byte of the session's own is located nowhere, and a typed one at its place, of
which `typed` speaks. -/
structure MapsBack (typed : String → Nat → Nat → Nat → Prop) (ps : List Piece) (g : Generated) :
    Prop where
  ordered : ∀ seg ∈ g.map, seg.start ≤ seg.stop
  increasing : g.map.Pairwise fun a b => a.stop ≤ b.start
  covered : ∀ i, i < g.text.utf8ByteSize → (pieceAt ps i).isSome = true
  own : ∀ i text k, pieceAt ps i = some (.raw text, k) → locate g.map i = none
  user : ∀ i text input offset k, pieceAt ps i = some (.user text input offset, k) →
    (bytes g.text)[i]? = (bytes text)[k]? ∧ locate g.map i = some (input, offset + k) ∧
      typed text input offset k

lemma pieceAt_isSome {ps : List Piece} {i : Nat} (h : i < (ps.flatMap (bytes ·.text)).length) :
    (pieceAt ps i).isSome = true := by
  induction ps generalizing i with
  | nil => cases h
  | cons p ps ih =>
      rw [List.flatMap_cons, List.length_append, length_bytes] at h
      unfold pieceAt
      split_ifs
      · rfl
      · exact ih (by omega)

lemma mapsBack_assemble {typed : String → Nat → Nat → Nat → Prop} {ps : List Piece}
    (h : ∀ text input offset, .user text input offset ∈ ps → ∀ k, k < text.utf8ByteSize →
      typed text input offset k) : MapsBack typed ps (assemble ps) where
  ordered seg hseg := by
    rw [assemble_map] at hseg
    exact (segmentsFrom_start hseg).2
  increasing := by
    rw [assemble_map]
    exact segmentsFrom_increasing ps 0
  covered i hi := by
    rw [← length_bytes, assemble_bytes] at hi
    exact pieceAt_isSome hi
  own i text k hp := by
    rw [locate_assemble, hp]
    rfl
  user i text input offset k hp := by
    obtain ⟨hmem, hk, hbyte⟩ := bytes_pieceAt hp
    refine ⟨?_, ?_, h text input offset hmem k hk⟩
    · rw [assemble_bytes]
      exact hbyte
    · rw [locate_assemble, hp]
      rfl

/-- A typed piece is a declaration, a statement or the result. -/
lemma user_mem_pieces {referenced delta : TreeSet String} {awaits : Bool} {text : String}
    {i offset : Nat} (h : .user text i offset ∈ pieces number p referenced delta awaits) :
    (∃ (name : String) (d : Declaration), p.declarations[name]? = some d ∧ d.source = text ∧ d.input = i ∧ d.offset = offset) ∨
      (i = number ∧ ((text, offset) ∈ p.statements ∨
        p.resultIsUser = true ∧ p.result = (text, offset))) := by
  simp only [pieces, List.mem_append, List.mem_flatMap, List.mem_cons, List.mem_map,
    List.not_mem_nil, or_false, Piece.user.injEq, reduceCtorEq, and_false, exists_false,
    false_or] at h
  rcases h with (⟨d, hd, rfl, rfl, rfl⟩ | ⟨t, ht, rfl, rfl, rfl⟩) | h
  · exact .inl ⟨d.1, d.2, TreeMap.mem_toList_iff_getElem?_eq_some.1 hd, rfl, rfl, rfl⟩
  · exact .inr ⟨rfl, .inl ht⟩
  · split_ifs at h with hu
    obtain ⟨rfl, rfl, rfl⟩ := Piece.user.inj h
    exact .inr ⟨rfl, .inr ⟨hu, rfl⟩⟩

/-- **Generated source maps back to typed text.**  In every session, a byte of a unit that belongs to
a retained declaration, a statement or the result is located at the input and the offset of that very
byte, but for the semicolon the session writes after an expression statement and the line break it
writes after the input. -/
theorem maps_back (ceiling budget : Nat) {es : List Event} (hes : ∀ e ∈ es, e.SpansInside)
    (hspans : w.SpansInside input) (hparse : w.parse (wrap input) = .ok block)
    (hparts : let s := admitted (after (new ceiling budget) es) input
      takeStatements s s.inputs.length (wrap input) block.close block.statements
        ⟨s.declarations, s.names, [], ("()", 0), false⟩ = .ok p)
    (referenced delta : TreeSet String) (awaits : Bool) :
    let s := admitted (after (new ceiling budget) es) input
    MapsBack (Typed s.inputs (wrap input) block)
        (pieces s.inputs.length p referenced delta awaits)
        (build s.inputs.length p referenced delta awaits) ∧
      Placed s.inputs p.declarations := by
  intro s
  have hs : Placed s.inputs s.declarations :=
    (after_placed hes (new_placed ceiling budget)).admitted input
  obtain ⟨hone, hget⟩ := admitted_input (after (new ceiling budget) es) input
  have hplaced := takeStatements_placed hget hone (hspans block hparse) (fun _ h => h)
    (initial_placed hs) hparts
  refine ⟨?_, hplaced.declarations⟩
  rw [build_eq]
  refine mapsBack_assemble fun text i offset hmem k hk => ?_
  rcases user_mem_pieces hmem with ⟨name, d, hd, rfl, rfl, rfl⟩ | ⟨rfl, hst | ⟨hu, hres⟩⟩
  · exact .inl (hplaced.declarations name d hd k hk)
  · exact hplaced.statements _ hst k hk
  · have := hplaced.result hu k
    rw [hres] at this
    exact this hk

/-! ## The line break after the input -/

/-- A world that parses a statement of two bytes. -/
def oneStatement : World :=
  { returnsEarly with parse := fun _ => .ok ⟨[⟨1, .semi⟩], 4⟩ }

/-- The parts of that statement. -/
def oneStatementParts : Parts := ⟨∅, ∅, [(slice (wrap "1;") 1 4, 0)], ("()", 0), false⟩

/-- The spans of the statement lie inside the wrapped input. -/
lemma oneStatement_inside : oneStatement.SpansInside "1;" := by
  intro block hblock
  obtain rfl := Except.ok.inj hblock
  refine ⟨fun st hst => ?_, by decide, fun st hst span hs => ?_⟩
  · obtain rfl := List.mem_singleton.1 hst
    decide
  · obtain rfl := List.mem_singleton.1 hst
    cases hs

/-- The map of the unit of one statement, in a new session. -/
theorem maps_back_one_statement :
    MapsBack (Typed ["1;"] (wrap "1;") ⟨[⟨1, .semi⟩], 4⟩) (pieces 1 oneStatementParts ∅ ∅ false)
        (build 1 oneStatementParts ∅ ∅ false) ∧ Placed ["1;"] oneStatementParts.declarations :=
  have hnone : ∀ e ∈ ([] : List Event), e.SpansInside := fun _ he => by cases he
  maps_back 1 1 hnone oneStatement_inside rfl rfl ∅ ∅ false

/-- The line break that the session writes after its input belongs to the last statement, and its place
is past the end of the input. -/
theorem not_maps_back_line_break : ¬ ∀ (ceiling budget : Nat) (es : List Event) (w : World)
    (input : String) (block : Block) (p : Parts) (referenced delta : TreeSet String) (awaits : Bool),
    let s := admitted (after (new ceiling budget) es) input
    (∀ e ∈ es, e.SpansInside) → w.SpansInside input → w.parse (wrap input) = .ok block →
      takeStatements s s.inputs.length (wrap input) block.close block.statements
        ⟨s.declarations, s.names, [], ("()", 0), false⟩ = .ok p →
      MapsBack (fun text i offset k => SameByte s.inputs text i offset k ∨
          Semicolon (wrap input) block text offset k)
        (pieces s.inputs.length p referenced delta awaits)
        (build s.inputs.length p referenced delta awaits) := by
  intro hall
  have h := hall 1 1 [] oneStatement "1;" ⟨[⟨1, .semi⟩], 4⟩ oneStatementParts ∅ ∅ false
    (fun _ he => by cases he) oneStatement_inside rfl rfl
  have hpiece : pieceAt (pieces 1 oneStatementParts ∅ ∅ false) 29 =
      some (.user (slice (wrap "1;") 1 4) 1 0, 2) := by decide
  rcases (h.user 29 _ _ _ _ hpiece).2.2 with ⟨-, typed, htyped, hlt, -⟩ | ⟨st, hst, ⟨span, hs⟩, -⟩
  · obtain rfl : "1;" = typed := Option.some.inj htyped
    exact absurd hlt (by decide)
  · obtain rfl := List.mem_singleton.1 hst
    cases hs

end Host.Evaluation

end Rnx
