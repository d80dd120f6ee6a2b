import Rnx.Lib.Bytes
import Rnx.Lib.Framing
import Rnx.Lib.OrderedMap
import Rnx.Lib.Utf8

/-!
# Frames of dependency transitions

`dep_wire.rs`: a message is a kind and a map from tags to texts.  Its body is a version, the kind and
one field an entry, a tag, a length in network order and a text; a frame is the length of a body and
the body.  Lengths are those of bytes, and a text is the list of its characters.
-/

namespace Rnx

namespace Project

namespace DepWire

/-- `LIMIT`. -/
def limit : Nat := 65536

/-- `Fields`. -/
abbrev Fields := OrderedMap UInt8 (List Char)

/-- The loop of `encode`. -/
def encodeFields : List (UInt8 × List Char) → List UInt8 → Except String (List UInt8)
  | [], body => .ok body
  | (tag, text) :: rest, body =>
      if tag = 0 ∨ 12 < tag then .error "unknown field"
      else if limit < body.length + 5 + (Utf8.encode text).length then
        .error "frame exceeds 65536 bytes"
      else
        encodeFields rest (body ++ [tag] ++ BigEndian.toBytes 4 (Utf8.encode text).length ++
          Utf8.encode text)

/-- `encode`. -/
def encode (kind : UInt8) (fields : Fields) : Except String (List UInt8) := do
  let body ← encodeFields fields.entries [1, kind]
  pure (BigEndian.toBytes 4 body.length ++ body)

/-- The loop of `decode`, from a place in the body on. -/
def decodeFields (body : List UInt8) (pos : Nat) (fields : Fields) : Except String Fields :=
  if _h : pos < body.length then
    if body.length - pos < 5 then .error "truncated field"
    else
      let tag := body[pos]
      let len := BigEndian.ofBytes ((body.drop (pos + 1)).take 4)
      if tag = 0 ∨ 12 < tag ∨ body.length - (pos + 5) < len then .error "unknown/truncated field"
      else
        let text := Utf8.fromUtf8 ((body.drop (pos + 5)).take len)
        if text.error.isSome then .error "non-UTF-8 field"
        else if tag ∈ fields.keys then .error "duplicate field"
        else decodeFields body (pos + 5 + len) (fields.insert tag text.text)
  else .ok fields
termination_by body.length - pos

/-- `decode`. -/
def decode (body : List UInt8) : Except String (UInt8 × Fields) :=
  match body with
  | version :: kind :: _ =>
      if limit < body.length ∨ version ≠ 1 then .error "bad frame/version"
      else if kind ∉ [1, 2, 3, 4, 5, 6, 7, 8] then .error "unknown message"
      else do
        let fields ← decodeFields body 2 .empty
        pure (kind, fields)
  | _ => .error "bad frame/version"

/-- `read_exact`, of so many bytes: these and what follows them. -/
def readExact (n : Nat) (input : List UInt8) : Except String (List UInt8 × List UInt8) :=
  if n ≤ input.length then .ok (input.take n, input.drop n)
  else .error "failed to fill whole buffer"

/-- `read`: the message and what was not read. -/
def read (input : List UInt8) : Except String ((UInt8 × Fields) × List UInt8) := do
  let (bytes, input) ← readExact 4 input
  let len := BigEndian.ofBytes bytes
  if len < 2 ∨ limit < len then .error "frame length refused"
  else
    let (body, input) ← readExact len input
    let message ← decode body
    pure (message, input)

/-! ## Fields -/

/-- The bytes of a field. -/
def fieldBytes (e : UInt8 × List Char) : List UInt8 :=
  e.1 :: (BigEndian.toBytes 4 (Utf8.encode e.2).length ++ Utf8.encode e.2)

/-- A tag that is known. -/
def Known (tag : UInt8) : Prop := tag ≠ 0 ∧ tag ≤ 12

instance (tag : UInt8) : Decidable (Known tag) := inferInstanceAs (Decidable (_ ∧ _))

/-- The body of a message with these fields. -/
def bodyOf (kind : UInt8) (fields : List (UInt8 × List Char)) : List UInt8 :=
  [1, kind] ++ fields.flatMap fieldBytes

variable {tag kind : UInt8} {text : List Char} {fields : Fields} {front rest body out : List UInt8}
  {es seq : List (UInt8 × List Char)}

lemma not_unknown_iff : ¬ (tag = 0 ∨ 12 < tag) ↔ Known tag := by
  unfold Known
  rw [not_or, not_lt]

lemma length_fieldBytes (e : UInt8 × List Char) :
    (fieldBytes e).length = 5 + (Utf8.encode e.2).length := by
  unfold fieldBytes
  rw [List.length_cons, List.length_append, BigEndian.length_toBytes]
  omega

lemma length_perm (h : es.Perm seq) :
    (es.flatMap fieldBytes).length = (seq.flatMap fieldBytes).length :=
  (h.flatMap_right fieldBytes).length_eq

/-! ## Encoding -/

/-- What `encode` accepts, and what it writes. -/
lemma encodeFields_ok_iff (hbody : body.length ≤ limit) : encodeFields es body = .ok out ↔
    (∀ e ∈ es, Known e.1) ∧ out = body ++ es.flatMap fieldBytes ∧ out.length ≤ limit := by
  induction es generalizing body with
  | nil =>
    rw [List.flatMap_nil, List.append_nil]
    unfold encodeFields
    constructor
    · intro h
      obtain rfl := Except.ok.inj h
      exact ⟨List.forall_mem_nil _, rfl, hbody⟩
    · rintro ⟨-, rfl, -⟩
      rfl
  | cons e es ih =>
    obtain ⟨tag, text⟩ := e
    have hfield : body ++ [tag] ++ BigEndian.toBytes 4 (Utf8.encode text).length ++
        Utf8.encode text = body ++ fieldBytes (tag, text) := by
      unfold fieldBytes
      rw [List.append_assoc, List.append_assoc]
      rfl
    have hlength : (body ++ fieldBytes (tag, text)).length =
        body.length + 5 + (Utf8.encode text).length := by
      rw [List.length_append, length_fieldBytes, Nat.add_assoc]
    unfold encodeFields
    rw [hfield, List.forall_mem_cons, List.flatMap_cons, ← List.append_assoc]
    split_ifs with htag hlimit
    · exact iff_of_false (fun h => by cases h) fun h => not_unknown_iff.2 h.1.1 htag
    · refine iff_of_false (fun h => by cases h) ?_
      rintro ⟨-, rfl, hle⟩
      rw [List.length_append, hlength] at hle
      omega
    · rw [ih (by omega)]
      exact ⟨fun h => ⟨⟨not_unknown_iff.1 htag, h.1⟩, h.2⟩, fun h => ⟨h.1.2, h.2⟩⟩

/-- A map that is accepted, its frame and the bounds. -/
lemma encode_ok_iff : encode kind fields = .ok out ↔
    (∀ e ∈ fields.entries, Known e.1) ∧ (bodyOf kind fields.entries).length ≤ limit ∧
      out = BigEndian.toBytes 4 (bodyOf kind fields.entries).length ++
        bodyOf kind fields.entries := by
  have hstart : [1, kind].length ≤ limit := Nat.le_of_ble_eq_true rfl
  unfold encode
  constructor
  · intro h
    cases hrun : encodeFields fields.entries [1, kind] with
    | error e =>
      rw [hrun] at h
      cases h
    | ok body =>
      rw [hrun] at h
      obtain ⟨hknown, rfl, hle⟩ := (encodeFields_ok_iff hstart).1 hrun
      exact ⟨hknown, hle, (Except.ok.inj h).symm⟩
  · rintro ⟨hknown, hle, rfl⟩
    rw [(encodeFields_ok_iff hstart).2 ⟨hknown, rfl, hle⟩]
    rfl

/-! ## Decoding -/

lemma decodeFields_nil (front : List UInt8) (fields : Fields) :
    decodeFields front front.length fields = .ok fields := by
  rw [decodeFields, dif_neg (lt_irrefl _)]

lemma ofBytes_length (h : (Utf8.encode text).length < 256 ^ 4) :
    BigEndian.ofBytes (BigEndian.toBytes 4 (Utf8.encode text).length) =
      (Utf8.encode text).length := BigEndian.ofBytes_toBytes h

/-- What follows the fields that were read. -/
lemma drop_front (front more : List UInt8) (n : Nat) :
    (front ++ more).drop (front.length + n) = more.drop n := by
  rw [List.drop_append, List.drop_eq_nil_of_le (Nat.le_add_right _ _), List.nil_append,
    Nat.add_sub_cancel_left]

/-- A field that is whole is put into the map, unless it has one with its tag. -/
lemma decodeFields_field (hknown : Known tag) (hlength : (Utf8.encode text).length < 256 ^ 4)
    (rest : List UInt8) :
    decodeFields (front ++ (fieldBytes (tag, text) ++ rest)) front.length fields =
      if tag ∈ fields.keys then .error "duplicate field"
      else decodeFields ((front ++ fieldBytes (tag, text)) ++ rest)
        (front ++ fieldBytes (tag, text)).length (fields.insert tag text) := by
  have hbody : (front ++ (fieldBytes (tag, text) ++ rest)).length =
      front.length + (5 + (Utf8.encode text).length + rest.length) := by
    rw [List.length_append, List.length_append, length_fieldBytes]
  have hlen : ((front ++ (fieldBytes (tag, text) ++ rest)).drop (front.length + 1)).take 4 =
      BigEndian.toBytes 4 (Utf8.encode text).length := by
    rw [drop_front]
    unfold fieldBytes
    rw [List.cons_append, List.drop_succ_cons, List.drop_zero, List.append_assoc]
    exact List.take_left' (BigEndian.length_toBytes _ _)
  have htext : ((front ++ (fieldBytes (tag, text) ++ rest)).drop (front.length + 5)).take
      (Utf8.encode text).length = Utf8.encode text := by
    rw [drop_front]
    unfold fieldBytes
    rw [List.cons_append, List.drop_succ_cons, List.append_assoc,
      List.drop_left' (BigEndian.length_toBytes _ _), List.take_left]
  have htag : ∀ h, GetElem.getElem (front ++ (fieldBytes (tag, text) ++ rest)) front.length h =
      tag := by
    intro h
    rw [List.getElem_append_right le_rfl]
    simp only [Nat.sub_self]
    rfl
  have hvalid := Utf8.fromUtf8_encode text
  rw [decodeFields, dif_pos (by omega), if_neg (by omega)]
  dsimp only
  rw [htag, hlen, ofBytes_length hlength, htext, hvalid]
  rw [if_neg (by
    have hunknown := not_unknown_iff.2 hknown
    rw [← or_assoc, not_or]
    exact ⟨hunknown, by omega⟩)]
  dsimp only [Option.isSome_none]
  rw [if_neg Bool.false_ne_true, Nat.add_assoc, ← length_fieldBytes (tag, text),
    ← List.length_append, List.append_assoc]

/-- What a run that returns finds where it has not ended. -/
lemma decodeFields_split {fields' : Fields} (hne : rest ≠ [])
    (h : decodeFields (front ++ rest) front.length fields = .ok fields') :
    ∃ tag text more, rest = fieldBytes (tag, text) ++ more ∧ Known tag ∧
      (Utf8.encode text).length < 256 ^ 4 := by
  obtain ⟨tag, rest, rfl⟩ := List.exists_cons_of_ne_nil hne
  have hlength : (front ++ tag :: rest).length = front.length + (1 + rest.length) := by
    rw [List.length_append, List.length_cons, Nat.add_comm rest.length]
  have htag : ∀ h, GetElem.getElem (front ++ tag :: rest) front.length h = tag := by
    intro h
    rw [List.getElem_append_right le_rfl]
    simp only [Nat.sub_self]
    rfl
  rw [decodeFields, dif_pos (by omega)] at h
  dsimp only at h
  rw [htag, drop_front, drop_front, hlength, List.drop_succ_cons, List.drop_zero,
    List.drop_succ_cons] at h
  split_ifs at h with hcut hunknown hvalid hdup
  rw [← or_assoc, not_or, not_unknown_iff] at hunknown
  have hfour : (rest.take 4).length = 4 := by
    rw [List.length_take]
    omega
  have hlen := BigEndian.ofBytes_lt (rest.take 4)
  rw [hfour] at hlen
  obtain ⟨text, htext⟩ := Utf8.fromUtf8_ok_iff.1 (Option.not_isSome_iff_eq_none.1 hvalid)
  have htaken : ((rest.drop 4).take (BigEndian.ofBytes (rest.take 4))).length =
      BigEndian.ofBytes (rest.take 4) := by
    rw [List.length_take, List.length_drop]
    omega
  refine ⟨tag, text, (rest.drop 4).drop (BigEndian.ofBytes (rest.take 4)), ?_, hunknown.1, ?_⟩
  · have hback := BigEndian.toBytes_ofBytes (rest.take 4)
    rw [hfour] at hback
    unfold fieldBytes
    rw [← htext, htaken, hback, List.cons_append, List.append_assoc, List.take_append_drop,
      List.take_append_drop]
  · rw [← htext, htaken]
    exact hlen

/-- A field that a body can have. -/
def Field (e : UInt8 × List Char) : Prop := Known e.1 ∧ (Utf8.encode e.2).length < 256 ^ 4

/-- **The bodies that are accepted** are those made of fields with known tags, each tag once, and the
map has these fields. -/
lemma decodeFields_ok_iff {fields' : Fields} :
    decodeFields (front ++ rest) front.length fields = .ok fields' ↔
      ∃ seq, rest = seq.flatMap fieldBytes ∧ (∀ e ∈ seq, Field e) ∧
        fields'.entries.Perm (seq ++ fields.entries) := by
  induction hn : rest.length using Nat.strong_induction_on generalizing front rest fields with
  | h n ih =>
    subst hn
    have hstep : ∀ tag text more, rest = fieldBytes (tag, text) ++ more →
        (decodeFields (front ++ fieldBytes (tag, text) ++ more)
            (front ++ fieldBytes (tag, text)).length (fields.insert tag text) = .ok fields' ↔
          ∃ seq, more = seq.flatMap fieldBytes ∧ (∀ e ∈ seq, Field e) ∧
            fields'.entries.Perm (seq ++ (fields.insert tag text).entries)) := by
      rintro tag text more rfl
      refine ih more.length ?_ rfl
      rw [List.length_append, length_fieldBytes]
      omega
    constructor
    · intro h
      by_cases hne : rest = []
      · rw [hne, List.append_nil, decodeFields_nil] at h
        obtain rfl := Except.ok.inj h
        exact ⟨[], hne, List.forall_mem_nil _, List.Perm.refl _⟩
      · obtain ⟨tag, text, more, hrest, hknown, hlength⟩ := decodeFields_split hne h
        rw [hrest, decodeFields_field hknown hlength] at h
        split_ifs at h with hdup
        obtain ⟨seq, hmore, hseq, hperm⟩ := (hstep tag text more hrest).1 h
        refine ⟨(tag, text) :: seq, ?_, List.forall_mem_cons.2 ⟨⟨hknown, hlength⟩, hseq⟩, ?_⟩
        · rw [hrest, hmore, List.flatMap_cons]
        · exact (hperm.trans ((OrderedMap.insert_perm hdup).append_left seq)).trans
            List.perm_middle
    · rintro ⟨seq, hrest, hseq, hperm⟩
      cases seq with
      | nil =>
        rw [hrest, List.flatMap_nil, List.append_nil, decodeFields_nil,
          OrderedMap.ext_perm hperm]
      | cons e seq =>
        obtain ⟨tag, text⟩ := e
        obtain ⟨⟨hknown, hlength⟩, hseq⟩ := List.forall_mem_cons.1 hseq
        rw [List.flatMap_cons] at hrest
        have hnodup := (hperm.map Prod.fst).nodup_iff.1 fields'.nodup_keys
        rw [List.cons_append, List.map_cons, List.map_append, List.nodup_cons] at hnodup
        have hnew : tag ∉ fields.keys := fun hmem => hnodup.1 (List.mem_append_right _ hmem)
        rw [hrest, decodeFields_field hknown hlength, if_neg hnew, hstep tag text _ hrest]
        refine ⟨seq, rfl, hseq, hperm.trans ?_⟩
        exact List.perm_middle.symm.trans ((OrderedMap.insert_perm hnew).symm.append_left seq)

/-! ## Messages -/

/-- A kind of message. -/
def Kind (kind : UInt8) : Prop := kind ∈ [1, 2, 3, 4, 5, 6, 7, 8]

instance (kind : UInt8) : Decidable (Kind kind) := inferInstanceAs (Decidable (_ ∈ _))

/-- What `decode` does with a body that is a version and a kind. -/
lemma decode_eq (hlimit : ([1, kind] ++ rest).length ≤ limit) (hkind : Kind kind) :
    decode ([1, kind] ++ rest) =
      (decodeFields ([1, kind] ++ rest) [1, kind].length .empty >>= fun fields =>
        pure (kind, fields)) := by
  have hversion : ¬ (limit < ([1, kind] ++ rest).length ∨ (1 : UInt8) ≠ 1) := by
    rintro (h | h)
    · omega
    · exact h rfl
  show (if limit < ([1, kind] ++ rest).length ∨ (1 : UInt8) ≠ 1 then _ else _) = _
  rw [if_neg hversion]
  exact if_neg (not_not.2 hkind)

/-- A body that is accepted is not too long, and begins with the version and a kind. -/
lemma decode_start {message : UInt8 × Fields} (h : decode body = .ok message) :
    body.length ≤ limit ∧ Kind message.1 ∧ ∃ rest, body = [1, message.1] ++ rest := by
  unfold decode at h
  split at h
  · next version kind rest =>
    split_ifs at h with hversion hkind
    rw [not_or, not_not] at hversion
    obtain ⟨hlimit, rfl⟩ := hversion
    cases hrun : decodeFields (1 :: kind :: rest) 2 .empty with
    | error e =>
      rw [hrun] at h
      cases h
    | ok fields =>
      rw [hrun] at h
      obtain rfl := Except.ok.inj h
      exact ⟨Nat.le_of_not_lt hlimit, hkind, rest, rfl⟩
  · cases h

/-- The texts of a body that is not too long have lengths that fit their fields. -/
lemma short_of_limit (h : (bodyOf kind es).length ≤ limit) :
    ∀ e ∈ es, (Utf8.encode e.2).length < 256 ^ 4 := by
  intro e he
  obtain ⟨before, after, rfl⟩ := List.append_of_mem he
  unfold bodyOf limit at h
  rw [List.flatMap_append, List.flatMap_cons, List.length_append, List.length_append,
    List.length_append, length_fieldBytes] at h
  show _ < 4294967296
  omega

/-- The bodies that are accepted, with the messages they are. -/
lemma decode_ok_iff : decode body = .ok (kind, fields) ↔ body.length ≤ limit ∧ Kind kind ∧
    ∃ seq, body = bodyOf kind seq ∧ (∀ e ∈ seq, Known e.1) ∧ fields.entries.Perm seq := by
  constructor
  · intro h
    obtain ⟨hlimit, hkind, rest, rfl⟩ := decode_start h
    rw [decode_eq hlimit hkind] at h
    cases hrun : decodeFields ([1, kind] ++ rest) [1, kind].length .empty with
    | error e =>
      rw [hrun] at h
      cases h
    | ok fields' =>
      rw [hrun] at h
      obtain ⟨-, rfl⟩ := Prod.mk.inj (Except.ok.inj h)
      obtain ⟨seq, rfl, hseq, hperm⟩ := decodeFields_ok_iff.1 hrun
      refine ⟨hlimit, hkind, seq, rfl, fun e he => (hseq e he).1, ?_⟩
      exact hperm.trans (List.Perm.of_eq (List.append_nil seq))
  · rintro ⟨hlimit, hkind, seq, rfl, hseq, hperm⟩
    have hfields : ∀ e ∈ seq, Field e := fun e he => ⟨hseq e he, short_of_limit hlimit e he⟩
    have hrun : decodeFields ([1, kind] ++ seq.flatMap fieldBytes) [1, kind].length .empty =
        .ok fields :=
      decodeFields_ok_iff.2 ⟨seq, rfl, hfields, hperm.trans
        (List.Perm.of_eq (List.append_nil seq).symm)⟩
    unfold bodyOf at hlimit ⊢
    rw [decode_eq hlimit hkind, hrun]
    rfl

/-! ## Frames -/

lemma readExact_append {front rest : List UInt8} {n : Nat} (h : front.length = n) :
    readExact n (front ++ rest) = .ok (front, rest) := by
  unfold readExact
  rw [if_pos (by rw [List.length_append]; omega), List.take_left' h, List.drop_left' h]

lemma readExact_short {input : List UInt8} {n : Nat} (h : input.length < n) :
    ∃ e, readExact n input = .error e := ⟨_, if_neg (Nat.not_le_of_lt h)⟩

/-- The frame of a body. -/
def frame (body : List UInt8) : List UInt8 := BigEndian.toBytes 4 body.length ++ body

lemma two_le_bodyOf (kind : UInt8) (es : List (UInt8 × List Char)) :
    2 ≤ (bodyOf kind es).length := by
  unfold bodyOf
  rw [List.length_append]
  exact Nat.le_add_right 2 _

/-- What `read` does after a length that is allowed. -/
lemma read_frame {n : Nat} (h2 : 2 ≤ n) (hlimit : n ≤ limit) (input : List UInt8) :
    read (BigEndian.toBytes 4 n ++ input) =
      (readExact n input >>= fun (body, input) => decode body >>= fun message =>
        pure (message, input)) := by
  have hfits : n < 256 ^ 4 := lt_of_le_of_lt hlimit (by decide)
  unfold read
  rw [readExact_append (BigEndian.length_toBytes 4 n)]
  show (if BigEndian.ofBytes (BigEndian.toBytes 4 n) < 2 ∨ limit < _ then _ else _) = _
  rw [BigEndian.ofBytes_toBytes hfits, if_neg (by omega)]

lemma read_body (h2 : 2 ≤ body.length) (hlimit : body.length ≤ limit) {message : UInt8 × Fields}
    (h : decode body = .ok message) (more : List UInt8) :
    read (frame body ++ more) = .ok (message, more) := by
  unfold frame
  rw [List.append_assoc, read_frame h2 hlimit, readExact_append rfl]
  show (decode body >>= _) = _
  rw [h]
  rfl

/-- A frame that is cut is refused. -/
lemma read_cut (h2 : 2 ≤ body.length) (hlimit : body.length ≤ limit) {cut : List UInt8}
    (hcut : cut <+: frame body) (hne : cut ≠ frame body) : ∃ e, read cut = .error e := by
  have hlt : cut.length < (frame body).length :=
    lt_of_le_of_ne hcut.length_le fun h => hne (hcut.eq_of_length h)
  unfold frame at hcut hlt
  rw [List.length_append, BigEndian.length_toBytes] at hlt
  by_cases hshort : cut.length < 4
  · obtain ⟨e, he⟩ := readExact_short hshort
    unfold read
    rw [he]
    exact ⟨e, rfl⟩
  · have hlength := BigEndian.length_toBytes 4 body.length
    obtain ⟨part, rfl⟩ : BigEndian.toBytes 4 body.length <+: cut :=
      List.prefix_of_prefix_length_le (List.prefix_append _ _) hcut (by omega)
    rw [List.length_append, hlength] at hlt
    have hpart : ∃ e, readExact body.length part = .error e := readExact_short (by omega)
    obtain ⟨e, he⟩ := hpart
    rw [read_frame h2 hlimit, he]
    exact ⟨e, rfl⟩

/-! ## What is refused -/

/-- The rest of a body that cannot be read on, where fields with the tags were read before. -/
inductive Faulty (tags : List UInt8) : List UInt8 → Prop
  | truncated (more : List UInt8) : more ≠ [] → more.length < 5 → Faulty tags more
  | unknown (t : UInt8) (more : List UInt8) : ¬ Known t → Faulty tags (t :: more)
  | overrun (t : UInt8) (n : Nat) (more : List UInt8) : n < 256 ^ 4 → more.length < n →
      Faulty tags (t :: (BigEndian.toBytes 4 n ++ more))
  | notText (t : UInt8) (bytes more : List UInt8) : bytes.length < 256 ^ 4 →
      (Utf8.fromUtf8 bytes).error ≠ none →
      Faulty tags (t :: (BigEndian.toBytes 4 bytes.length ++ (bytes ++ more)))
  | duplicate (t : UInt8) (text : List Char) (more : List UInt8) : t ∈ tags →
      Faulty tags (fieldBytes (t, text) ++ more)

/-- A field ends where its length says. -/
lemma delimited_fieldBytes :
    Delimited (fun e : UInt8 × List Char => (Utf8.encode e.2).length < 256 ^ 4) fieldBytes := by
  intro e e' rest rest' h h' heq
  obtain ⟨htag, heq⟩ := List.cons.inj heq
  obtain ⟨htext, hrest⟩ := Delimited.lengthPrefixed 4 _ _ _ _ h h' heq
  exact ⟨Prod.ext htag (Utf8.encode_injective htext), hrest⟩

lemma fieldBytes_append (e : UInt8 × List Char) (more : List UInt8) : fieldBytes e ++ more =
    e.1 :: (BigEndian.toBytes 4 (Utf8.encode e.2).length ++ (Utf8.encode e.2 ++ more)) := by
  unfold fieldBytes
  rw [List.cons_append, List.append_assoc]

lemma fieldBytes_ne_nil (e : UInt8 × List Char) : fieldBytes e ≠ [] := List.cons_ne_nil _ _

lemma not_faulty_nil {tags : List UInt8} : ¬ Faulty tags [] := by
  intro h
  generalize hnil : ([] : List UInt8) = rest at h
  cases h with
  | truncated _ hne _ => exact hne hnil.symm
  | _ => cases hnil

/-- Where a field stands at the front, nothing is wrong with it but its tag. -/
lemma not_faulty_field {tags : List UInt8} {e : UInt8 × List Char} (hknown : Known e.1)
    (hlength : (Utf8.encode e.2).length < 256 ^ 4) (hnew : e.1 ∉ tags)
    (h : Faulty tags rest) : rest ≠ fieldBytes e ++ body := by
  intro heq
  cases h with
  | truncated _ hne hlt =>
    rw [heq, List.length_append, length_fieldBytes] at hlt
    omega
  | unknown _ _ htag => exact htag ((List.cons.inj heq).1 ▸ hknown)
  | overrun _ n more hn hlt =>
    rw [fieldBytes_append] at heq
    have htail := (List.cons.inj heq).2
    obtain ⟨hsize, rfl⟩ := List.append_inj htail
      (by rw [BigEndian.length_toBytes, BigEndian.length_toBytes])
    rw [BigEndian.toBytes_inj hn hlength hsize, List.length_append] at hlt
    omega
  | notText _ bytes more hsize hinvalid =>
    rw [fieldBytes_append] at heq
    have htail := (List.cons.inj heq).2
    rw [← List.append_assoc, ← List.append_assoc] at htail
    obtain ⟨rfl, -⟩ := Delimited.lengthPrefixed 4 _ _ _ _ hsize hlength htail
    exact hinvalid (Utf8.fromUtf8_ok_iff.2 ⟨_, rfl⟩)
  | duplicate _ _ _ hmem => exact hnew ((List.cons.inj heq).1 ▸ hmem)

/-- A body that cannot be read on after some fields is refused. -/
lemma decode_faulty (h : Faulty (es.map Prod.fst) rest) :
    ∃ e, decode (bodyOf kind es ++ rest) = .error e := by
  cases hrun : decode (bodyOf kind es ++ rest) with
  | error e => exact ⟨e, rfl⟩
  | ok message =>
    exfalso
    obtain ⟨kind', fields⟩ := message
    obtain ⟨hlimit, -, seq, hbody, hknown, hperm⟩ := decode_ok_iff.1 hrun
    have hfields : es.flatMap fieldBytes ++ rest = seq.flatMap fieldBytes := by
      unfold bodyOf at hbody
      rw [List.append_assoc] at hbody
      exact (List.append_inj hbody rfl).2
    rw [hbody] at hlimit
    have hseq := short_of_limit hlimit
    have hlength : (bodyOf kind' es).length ≤ limit := by
      refine le_trans ?_ hlimit
      unfold bodyOf
      rw [← hfields, List.length_append, List.length_append, List.length_append]
      omega
    have hes := short_of_limit hlength
    obtain ⟨zs, rfl, rfl⟩ := delimited_fieldBytes.flatMap_prefix (fun e _ => fieldBytes_ne_nil e)
      hes hseq hfields
    cases zs with
    | nil => exact not_faulty_nil h
    | cons e zs =>
      have hmem : e ∈ es ++ e :: zs := List.mem_append_right _ List.mem_cons_self
      have hnodup := (hperm.map Prod.fst).nodup_iff.1 fields.nodup_keys
      rw [List.map_append, List.map_cons] at hnodup
      have hnew : e.1 ∉ es.map Prod.fst := fun hmem =>
        (List.nodup_append.1 hnodup).2.2 _ hmem _ List.mem_cons_self rfl
      exact not_faulty_field (hknown e hmem) (hseq e hmem) hnew h List.flatMap_cons

/-! ## The result -/

/-- **Frames of messages round trip.**  A frame that was written is read back, whatever follows it,
and no part of it is read.  The bodies that are accepted are those of known kinds whose fields have
known tags, each once; what cannot be read on is refused.  A message that was read is written and
read as the same. -/
theorem frame_round_trip :
    (∀ kind fields out, Kind kind → encode kind fields = .ok out →
      (∀ more, read (out ++ more) = .ok ((kind, fields), more)) ∧
      ∀ cut, cut <+: out → cut ≠ out → ∃ e, read cut = .error e) ∧
    (∀ body kind fields, decode body = .ok (kind, fields) ↔ body.length ≤ limit ∧ Kind kind ∧
      ∃ es, body = bodyOf kind es ∧ (∀ e ∈ es, Known e.1) ∧ fields.entries.Perm es) ∧
    (∀ body, (limit < body.length ∨ body.head? ≠ some 1 ∨ ∀ kind ∈ body[1]?, ¬ Kind kind) →
      ∃ e, decode body = .error e) ∧
    (∀ kind es rest, Faulty (es.map Prod.fst) rest →
      ∃ e, decode (bodyOf kind es ++ rest) = .error e) ∧
    ∀ body kind fields, decode body = .ok (kind, fields) → ∃ out, encode kind fields = .ok out ∧
      read out = .ok ((kind, fields), []) ∧ decode (out.drop 4) = .ok (kind, fields) := by
  have hwritten : ∀ kind fields out, Kind kind → encode kind fields = .ok out →
      ∃ body, out = frame body ∧ 2 ≤ body.length ∧ body.length ≤ limit ∧
        decode body = .ok (kind, fields) := by
    intro kind fields out hkind h
    obtain ⟨hknown, hlimit, rfl⟩ := encode_ok_iff.1 h
    exact ⟨_, rfl, two_le_bodyOf kind _, hlimit, decode_ok_iff.2
      ⟨hlimit, hkind, _, rfl, hknown, List.Perm.refl _⟩⟩
  refine ⟨fun kind fields out hkind h => ?_, fun _ _ _ => decode_ok_iff, fun body h => ?_,
    fun _ _ _ => decode_faulty, fun body kind fields h => ?_⟩
  · obtain ⟨body, rfl, h2, hlimit, hdecode⟩ := hwritten kind fields out hkind h
    exact ⟨read_body h2 hlimit hdecode, fun _ => read_cut h2 hlimit⟩
  · cases hrun : decode body with
    | error e => exact ⟨e, rfl⟩
    | ok message =>
      exfalso
      obtain ⟨hlimit, hkind, rest, rfl⟩ := decode_start hrun
      obtain hlong | hversion | hunknown := h
      · exact absurd hlimit (Nat.not_le_of_lt hlong)
      · exact hversion rfl
      · exact hunknown message.1 rfl hkind
  · obtain ⟨hlimit, hkind, es, rfl, hknown, hperm⟩ := decode_ok_iff.1 h
    have hlength : (bodyOf kind fields.entries).length = (bodyOf kind es).length := by
      unfold bodyOf
      rw [List.length_append, List.length_append, length_perm hperm]
    have hencode : encode kind fields = .ok (frame (bodyOf kind fields.entries)) :=
      encode_ok_iff.2 ⟨fun e he => hknown e (hperm.mem_iff.1 he), by omega, rfl⟩
    obtain ⟨body, hbody, h2, hle, hdecode⟩ := hwritten kind fields _ hkind hencode
    have hread := read_body h2 hle hdecode []
    rw [List.append_nil] at hread
    refine ⟨_, hencode, by rw [hbody, hread], ?_⟩
    rw [hbody]
    unfold frame
    rw [List.drop_left' (BigEndian.length_toBytes 4 _), hdecode]

/-- The letter `a` in the first field of a message of kind two. -/
theorem frame_round_trip_letter :
    encode 2 ⟨[(1, ['a'])], List.pairwise_singleton _ _⟩ =
      .ok [0, 0, 0, 8, 1, 2, 1, 0, 0, 0, 1, 97] ∧
    read ([0, 0, 0, 8, 1, 2, 1, 0, 0, 0, 1, 97] ++ [7]) =
      .ok ((2, ⟨[(1, ['a'])], List.pairwise_singleton _ _⟩), [7]) ∧
    ∃ e, read [0, 0, 0, 8, 1, 2, 1, 0, 0, 0, 1] = .error e := by
  have hencode : encode 2 ⟨[(1, ['a'])], List.pairwise_singleton _ _⟩ =
      .ok [0, 0, 0, 8, 1, 2, 1, 0, 0, 0, 1, 97] :=
    encode_ok_iff.2 ⟨List.forall_mem_singleton.2 (by decide), by decide, by decide⟩
  have hframe := frame_round_trip.1 2 _ _ (by decide) hencode
  exact ⟨hencode, hframe.1 [7], hframe.2 _ ⟨[97], rfl⟩ (by decide)⟩

end DepWire

end Project

end Rnx
