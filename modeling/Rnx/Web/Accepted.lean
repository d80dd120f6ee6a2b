import Rnx.Lib.Outcome
import Rnx.Web.Response

/-!
# A response that is built is accepted

The constructor counts the type of the content first and then the headers it was given, in their
order; an object keeps the order in which it is filled, so the host reads the headers in the order
they were counted and its totals are those of the constructor.

* `values_ok` — what the constructor knows of the values of a name that it accepted;
* `checkHeaders_decode` — the host reads the copies of headers that were accepted, with the totals of
  the constructor;
* `response_accepted` — a response that is built is decoded.
-/

namespace Rnx

open Utf8
open Except (bind_eq_ok ite_error_eq_ok)

namespace Web

variable {lib : Library}

/-! ## Values of a name -/

/-- The bytes of the values of a name. -/
def payloads : Value → List (List UInt8)
  | .vec vs => vs.filterMap Value.bytes?
  | v => v.bytes?.toList

/-- The bytes that values take of a header block. -/
def cost (key : String) (bs : List (List UInt8)) : Nat :=
  (bs.map fun b => len key + b.length + 4).sum

/-- What is known of values that were visited. -/
structure Visited (key : String) (vs : List Value) (t t' : Tally) (bs : List (List UInt8)) :
    Prop where
  bytes : vs.map Value.bytes? = bs.map some
  valid : ∀ b ∈ bs, headerValue b = .ok ()
  count : t'.count = t.count + bs.length
  total : t'.total = t.total + cost key bs
  count_le : t.count ≤ headersMax → t'.count ≤ headersMax
  total_le : t.total ≤ headMax → t'.total ≤ headMax

lemma visit_ok {key : String} {t t' : Tally} {b : List UInt8} (h : visit key t b = .ok t') :
    headerValue b = .ok () ∧ t' = ⟨t.count + 1, t.total + len key + b.length + 4, t.index + 1⟩ ∧
      t'.count ≤ headersMax ∧ t'.total ≤ headMax := by
  unfold visit at h
  obtain ⟨_, hcount, h⟩ := bind_eq_ok.1 h
  simp only at h
  split_ifs at h
  obtain ⟨_, htotal, h⟩ := bind_eq_ok.1 h
  obtain ⟨_, hvalue, h⟩ := bind_eq_ok.1 h
  cases h
  exact ⟨hvalue, rfl, bounded_eq_ok.1 hcount, bounded_eq_ok.1 htotal⟩

lemma withBytes_ok {α : Type} {v : Value} {f : List UInt8 → Except String α} {a : α}
    (h : withBytes v f = .ok a) : ∃ b, v.bytes? = some b ∧ f b = .ok a := by
  unfold withBytes at h
  split at h
  · next b hb => exact ⟨b, hb, h⟩
  · cases h

lemma visitAll_ok {key : String} {vs : List Value} {t t' : Tally}
    (h : visitAll key t vs = .ok t') : ∃ bs, Visited key vs t t' bs := by
  induction vs generalizing t with
  | nil =>
      cases h
      exact ⟨[], rfl, fun b hb => (by cases hb), rfl, rfl, id, id⟩
  | cons v vs ih =>
      rw [visitAll] at h
      split at h
      · cases h
      · next t₁ hvisit =>
          obtain ⟨b, hb, hvisit⟩ := withBytes_ok hvisit
          obtain ⟨hvalue, rfl, hcount, htotal⟩ := visit_ok hvisit
          obtain ⟨bs, hbs⟩ := ih h
          refine ⟨b :: bs, ?_, ?_, ?_, ?_, fun _ => hbs.count_le hcount,
            fun _ => hbs.total_le htotal⟩
          · rw [List.map_cons, List.map_cons, hb, hbs.bytes]
          · exact List.forall_mem_cons.2 ⟨hvalue, hbs.valid⟩
          · have hcount := hbs.count
            simp only [List.length_cons] at hcount ⊢
            omega
          · have htotal := hbs.total
            unfold cost at htotal ⊢
            simp only [List.map_cons, List.sum_cons] at htotal ⊢
            omega

/-- The values of a name as a list. -/
def valueList : Value → List Value
  | .vec vs => vs
  | v => [v]

lemma payloads_eq {v : Value} {bs : List (List UInt8)}
    (h : (valueList v).map Value.bytes? = bs.map some) : payloads v = bs := by
  have hlist : payloads v = (valueList v).filterMap Value.bytes? := by
    cases v <;> rfl
  have hmap : (valueList v).filterMap Value.bytes? =
      ((valueList v).map Value.bytes?).filterMap id := by
    rw [List.filterMap_map]
    rfl
  rw [hlist, hmap, h, List.filterMap_map]
  exact List.filterMap_some

/-- The values of a name that was accepted. -/
lemma values_ok {key : String} {v : Value} {t t' : Tally} (h : values key t v = .ok t') :
    Visited key (valueList v) t t' (payloads v) := by
  have hvisit : visitAll key t (valueList v) = .ok t' := by
    cases v with
    | vec vs =>
        rw [values] at h
        split at h
        · cases h
        · exact h
    | string s => exact h
    | bytes b => exact h
    | integer n => cases h
    | object o => cases h
    | other => cases h
  obtain ⟨bs, hbs⟩ := visitAll_ok hvisit
  rwa [payloads_eq hbs.bytes]

/-! ## Copies -/

lemma copyPayload_ok {v v' : Value} (h : copyPayload v = .ok v') : v' = v := by
  cases v <;> cases h <;> rfl

lemma copyValues_ok {v : Value} {list : List Value} (h : copyValues v = .ok list) :
    list = valueList v := by
  have hall : ∀ {vs list : List Value}, vs.mapM copyPayload = .ok list → list = vs := by
    intro vs
    induction vs with
    | nil =>
        intro list h
        cases h
        rfl
    | cons v vs ih =>
        intro list h
        rw [List.mapM_cons] at h
        obtain ⟨v', hv, h⟩ := bind_eq_ok.1 h
        obtain ⟨vs', hvs, h⟩ := bind_eq_ok.1 h
        cases h
        rw [copyPayload_ok hv, ih hvs]
  cases v with
  | vec vs => exact hall h
  | string s =>
      cases h
      rfl
  | bytes b =>
      cases h
      rfl
  | integer n => cases h
  | object o => cases h
  | other => cases h

/-- The entry a header has in a response. -/
def outEntry (entry : String × Value) : String × Value :=
  (lower entry.1, .vec (valueList entry.2))

lemma copyHeaders_ok {out out' hs : Object} (h : copyHeaders out hs = .ok out')
    (hnodup : (hs.map fun entry => lower entry.1).Nodup)
    (hfresh : ∀ entry ∈ hs, out.lookup (lower entry.1) = none) : out' = out ++ hs.map outEntry := by
  induction hs generalizing out with
  | nil =>
      cases h
      exact (List.append_nil _).symm
  | cons entry hs ih =>
      obtain ⟨key, v⟩ := entry
      rw [copyHeaders] at h
      obtain ⟨list, hlist, h⟩ := bind_eq_ok.1 h
      rw [List.map_cons, List.nodup_cons] at hnodup
      rw [List.forall_mem_cons] at hfresh
      rw [put_of_none hfresh.1, copyValues_ok hlist] at h
      rw [ih h hnodup.2, List.append_assoc, List.map_cons]
      · rfl
      · intro entry hmem
        have hne : lower entry.1 ≠ lower key := by
          intro heq
          exact hnodup.1 (List.mem_map.2 ⟨entry, hmem, heq⟩)
        rw [List.lookup_append, hfresh.2 entry hmem, List.lookup_cons, beq_eq_false_iff_ne.2 hne]
        rfl

/-! ## The host reads what was counted -/

lemma length_toLower (c : Char) :
    (String.utf8EncodeChar c.toLower).length = (String.utf8EncodeChar c).length := by
  rw [String.length_utf8EncodeChar, String.length_utf8EncodeChar]
  unfold Char.toLower
  split_ifs with h
  · have hc : c.utf8Size = 1 := Char.utf8Size_eq_one_iff.2 (by
      have := h.2
      simp only [UInt32.le_iff_toNat_le] at this ⊢
      exact Nat.le_trans this (by decide))
    rw [hc, Char.utf8Size_eq_one_iff]
    obtain ⟨h₁, h₂⟩ := h
    simp only [ge_iff_le, UInt32.le_iff_toNat_le] at h₁ h₂ ⊢
    rw [show ('Z' : Char).val.toNat = 90 from rfl] at h₂
    rw [UInt32.toNat_add, show (('a' : Char).val - ('A' : Char).val).toNat = 32 from rfl,
      show UInt32.toNat 127 = 127 from rfl]
    omega
  · rfl

lemma len_lower (key : String) : len (lower key) = len key := by
  unfold len lower
  rw [String.toList_ofList]
  induction key.toList with
  | nil => rfl
  | cons c cs ih =>
      rw [List.map_cons, encode_cons, encode_cons, List.length_append, List.length_append, ih,
        length_toLower]

lemma headerName_lower (hdoc : lib.Documented) {key name : String}
    (h : headerName lib key = .ok name) :
    name = lower key ∧ headerName lib (lower key) = .ok name := by
  unfold headerName at h
  split at h
  · cases h
  · next name' hname =>
      split_ifs at h with hreserved
      cases h
      have hlower := hdoc.lower key name hname
      refine ⟨hlower, ?_⟩
      unfold headerName
      rw [← hlower, hdoc.normal key name hname]
      exact if_neg hreserved

lemma headerValue_ok (hdoc : lib.Documented) {b : List UInt8} (h : headerValue b = .ok ()) :
    lib.headerValue b = true := by
  unfold headerValue at h
  split_ifs at h with hbytes
  exact hdoc.value b hbytes

/-- The host reads values that were visited. -/
lemma decodeValues_ok (hdoc : lib.Documented) (key name : String) {total : Nat}
    (headers : List (String × List UInt8)) {vs : List Value} {bs : List (List UInt8)}
    (hbytes : vs.map Value.bytes? = bs.map some) (hvalid : ∀ b ∈ bs, headerValue b = .ok ())
    (htotal : total + cost key bs ≤ headMax) : decodeValues lib key name total headers vs =
      .ok (total + cost key bs, headers ++ bs.map fun b => (name, b)) := by
  induction bs generalizing total headers vs with
  | nil =>
      rw [List.map_nil, List.map_eq_nil_iff] at hbytes
      rw [hbytes, decodeValues, List.map_nil, List.append_nil]
      rfl
  | cons b bs ih =>
      obtain ⟨v, vs, rfl, hv, hvs⟩ := List.map_eq_cons_iff.1 hbytes
      rw [List.forall_mem_cons] at hvalid
      have hcost : cost key (b :: bs) = len key + b.length + 4 + cost key bs := by
        rw [cost, List.map_cons, List.sum_cons]
        rfl
      rw [hcost] at htotal ⊢
      have hread : bytes v (headMax - total) = .ok b := by
        unfold bytes
        rw [hv]
        exact if_neg (by omega)
      rw [decodeValues, hread]
      simp only [bind, Except.bind]
      rw [if_neg (by omega), hvalid.1]
      simp only
      rw [if_pos (headerValue_ok hdoc hvalid.1), ih _ hvs hvalid.2 (by omega)]
      simp only [List.map_cons, List.append_assoc, List.cons_append, List.nil_append]
      congr 2
      omega

/-- The headers of a response: each name in lower case with each of its values. -/
def given (hs : Object) : List (String × List UInt8) :=
  hs.flatMap fun entry => (payloads entry.2).map fun b => (lower entry.1, b)

/-- What is known of headers that were checked: their names differ, and the host reads their copies
from the totals they were counted with. -/
structure Checked (lib : Library) (names : List String) (count total : Nat) (hs : Object) : Prop where
  nodup : (hs.map fun entry => lower entry.1).Nodup
  fresh : ∀ entry ∈ hs, lower entry.1 ≠ "content-type" ∧ lower entry.1 ∉ names
  decode : ∀ headers : List (String × List UInt8), headers.length = count →
    decodeHeaders lib total headers (hs.map outEntry) = .ok (headers ++ given hs)

lemma checkHeaders_decode (hdoc : lib.Documented) {names : List String} {count total : Nat}
    {hs : Object} (h : checkHeaders lib names count total hs = .ok ()) (hcount : count ≤ headersMax)
    (htotal : total ≤ headMax) : Checked lib names count total hs := by
  induction hs generalizing names count total with
  | nil =>
      refine ⟨List.nodup_nil, fun entry hmem => (by cases hmem), fun headers _ => ?_⟩
      exact congrArg Except.ok (List.append_nil headers).symm
  | cons entry hs ih =>
      obtain ⟨key, v⟩ := entry
      rw [checkHeaders] at h
      split at h
      · cases h
      · next hbound =>
          split at h
          · cases h
          · next name hname =>
              split_ifs at h with hdup
              split at h
              · cases h
              · next t hvalues =>
                  obtain ⟨rfl, hname'⟩ := headerName_lower hdoc hname
                  have hvisited := values_ok hvalues
                  have hcount' := hvisited.count_le hcount
                  have hsum : t.count = count + (payloads v).length := hvisited.count
                  have htotal' := hvisited.total_le htotal
                  have hrest := ih h hcount' htotal'
                  rw [not_or] at hdup
                  refine ⟨?_, List.forall_mem_cons.2 ⟨hdup, fun entry hmem => ?_⟩, ?_⟩
                  · rw [List.map_cons, List.nodup_cons]
                    refine ⟨fun hmem => ?_, hrest.nodup⟩
                    obtain ⟨entry, hmem, heq⟩ := List.mem_map.1 hmem
                    exact (hrest.fresh entry hmem).2
                      (List.mem_append.2 (.inr (List.mem_singleton.2 heq)))
                  · exact ⟨(hrest.fresh entry hmem).1,
                      fun hname => (hrest.fresh entry hmem).2 (List.mem_append.2 (.inl hname))⟩
                  · intro headers hlength
                    have hcost : cost (lower key) (payloads v) = cost key (payloads v) := by
                      unfold cost
                      rw [len_lower]
                    have hvalues := decodeValues_ok hdoc (lower key) (lower key) headers
                      hvisited.bytes hvisited.valid
                      (by rw [hcost, ← hvisited.total]; exact htotal')
                    have hvs : (valueList v).length = (payloads v).length := by
                      have := congrArg List.length hvisited.bytes
                      rwa [List.length_map, List.length_map] at this
                    rw [List.map_cons, outEntry, decodeHeaders, len_lower,
                      if_neg (Nat.not_lt.2 (bounded_eq_ok.1 hbound)), hname']
                    simp only [bind, Except.bind]
                    rw [if_neg (by rw [hvs, hlength]; omega), hvalues]
                    simp only
                    rw [hcost, ← hvisited.total, hrest.decode _ (by
                      rw [List.length_append, List.length_map, hlength, hvisited.count])]
                    unfold given
                    rw [List.flatMap_cons, List.append_assoc]

/-! ## Responses -/

lemma status_ok {code : Int} {n : Nat} (h : status code n = .ok ()) :
    200 ≤ code ∧ code ≤ 599 ∧ n ≤ bodyMax ∧ status code 0 = .ok () := by
  unfold status at h ⊢
  rw [ite_error_eq_ok, not_not] at h
  obtain ⟨hrange, h⟩ := h
  obtain ⟨_, hlen, -⟩ := bind_eq_ok.1 h
  refine ⟨hrange.1, hrange.2, bounded_eq_ok.1 hlen, ?_⟩
  rw [if_neg (not_not.2 hrange), bounded_ok (Nat.zero_le _)]
  exact if_neg fun h => h.2 rfl

/-- The host reads the headers of a response: the type of the content first. -/
lemma decodeHeaders_response (hdoc : lib.Documented) {contentType : List Char} {hs : Object}
    (htype : headerValue (encode contentType) = .ok ())
    (htotal : 64 + len "content-type" + (encode contentType).length + 4 ≤ headMax)
    (h : Checked lib [] 1 (64 + len "content-type" + (encode contentType).length + 4) hs) :
    decodeHeaders lib 64 [] (("content-type", .vec [.string contentType]) :: hs.map outEntry) =
      .ok (("content-type", encode contentType) :: given hs) := by
  have hname : headerName lib "content-type" = .ok "content-type" := by
    unfold headerName
    rw [hdoc.contentType]
    exact if_neg (by decide)
  have hcost : 64 + cost "content-type" [encode contentType] =
      64 + len "content-type" + (encode contentType).length + 4 := by
    simp only [cost, List.map_cons, List.map_nil, List.sum_cons, List.sum_nil]
    omega
  have hbytes : [Value.string contentType].map Value.bytes? = [encode contentType].map some := rfl
  have htypes : ∀ b ∈ [encode contentType], headerValue b = .ok () := by simpa using htype
  have hvalues := decodeValues_ok hdoc "content-type" "content-type" [] hbytes htypes
    (hcost ▸ htotal)
  rw [decodeHeaders, if_neg (by decide), hname]
  simp only [bind, Except.bind, List.length_singleton, List.length_nil]
  rw [if_neg (by decide), hvalues, hcost]
  exact h.decode [("content-type", encode contentType)] rfl

/-- **A response that is built is accepted.**  The host decodes it to the status and the body, and
to the type of the content and each header in lower case with its values, in their order. -/
theorem response_accepted (hdoc : lib.Documented) {statusCode : Int} {body extra v : Value}
    {contentType : List Char} (h : response lib statusCode body contentType extra = .ok v) :
    ∃ hs b out, extra = .object hs ∧ body.bytes? = some b ∧ decodeOutput lib v = .ok out ∧
      (out.status : Int) = statusCode ∧ out.body = b ∧
      out.headers = ("content-type", encode contentType) :: given hs := by
  unfold response at h
  obtain ⟨_, hstatus, h⟩ := bind_eq_ok.1 h
  obtain ⟨_, -, h⟩ := bind_eq_ok.1 h
  obtain ⟨b, hb, hcode⟩ := withBytes_ok hstatus
  split at h
  · cases h
  · next htype =>
      cases extra with
      | object hs =>
          obtain ⟨_, hcount, h⟩ := bind_eq_ok.1 h
          obtain ⟨_, htotal, h⟩ := bind_eq_ok.1 h
          obtain ⟨_, hcheck, h⟩ := bind_eq_ok.1 h
          obtain ⟨outHeaders, hcopy, h⟩ := bind_eq_ok.1 h
          obtain ⟨payload, hpayload, h⟩ := bind_eq_ok.1 h
          cases h
          have htotal' := bounded_eq_ok.1 htotal
          have hchecked := checkHeaders_decode hdoc hcheck (by decide) htotal'
          have hout := copyHeaders_ok hcopy hchecked.nodup (by
            intro entry hmem
            have hne := (hchecked.fresh entry hmem).1
            rw [put_of_none rfl, List.nil_append, List.lookup_cons, beq_eq_false_iff_ne.2 hne]
            rfl)
          have hheaders := decodeHeaders_response hdoc htype htotal' hchecked
          obtain ⟨hlow, hhigh, hlen, hzero⟩ := status_ok hcode
          have hpayload' := copyPayload_ok hpayload
          subst hpayload' hout
          refine ⟨hs, b, ⟨statusCode.toNat % 2 ^ 16, ("content-type", encode contentType) ::
            given hs, b⟩, rfl, hb, ?_, by simp only; omega, rfl, rfl⟩
          have hbody : bytes payload bodyMax = .ok b := by
            unfold bytes
            rw [hb]
            exact if_neg (Nat.not_lt.2 hlen)
          have hcount' : ¬(("content-type", Value.vec [.string contentType]) ::
              hs.map outEntry).length > headersMax := by
            rw [List.length_cons, List.length_map]
            exact Nat.not_lt.2 (bounded_eq_ok.1 hcount)
          change (do
            status statusCode 0
            let body ← bytes payload bodyMax
            status statusCode body.length
            if (("content-type", Value.vec [.string contentType]) ::
                hs.map outEntry).length > headersMax then
              .error "too many response header names"
            else
              let headers ← decodeHeaders lib 64 []
                (("content-type", .vec [.string contentType]) :: hs.map outEntry)
              .ok (⟨statusCode.toNat % 2 ^ 16, headers, body⟩ : Output)) = _
          rw [hzero, hbody]
          simp only [bind, Except.bind]
          rw [hcode]
          simp only
          rw [if_neg hcount', hheaders]
      | string s => cases h
      | bytes b => cases h
      | integer n => cases h
      | vec vs => cases h
      | other => cases h

/-- A letter or a dash. -/
def NameByte (b : UInt8) : Prop := b = 45 ∨ (65 ≤ b ∧ b ≤ 90) ∨ (97 ≤ b ∧ b ≤ 122)

instance (b : UInt8) : Decidable (NameByte b) := inferInstanceAs (Decidable (_ ∨ _))

instance (bytes : List UInt8) : Decidable (∀ b ∈ bytes, NameByte b) :=
  List.decidableBAll NameByte bytes

/-- The character of a name. -/
def nameChar (b : UInt8) : Char := (Char.ofNat b.toNat).toLower

/-- A library that has names of letters and dashes only. -/
def letters : Library where
  headerName bytes :=
    if bytes ≠ [] ∧ ∀ b ∈ bytes, NameByte b then some (String.ofList (bytes.map nameChar)) else none
  headerValue bytes := decide (∀ b ∈ bytes, ValueByte b)
  debug s := "\"" ++ s ++ "\""

lemma nameByte_iff {b : UInt8} : NameByte b ↔
    b.toNat = 45 ∨ (65 ≤ b.toNat ∧ b.toNat ≤ 90) ∨ (97 ≤ b.toNat ∧ b.toNat ≤ 122) := by
  unfold NameByte
  simp only [UInt8.le_iff_toNat_le, ← UInt8.toNat_inj]
  rfl

lemma toNat_nameChar {b : UInt8} (h : b.toNat ≤ 0x7f) : (nameChar b).toNat =
    if 65 ≤ b.toNat ∧ b.toNat ≤ 90 then b.toNat + 32 else b.toNat := by
  have hchar : (Char.ofNat b.toNat).val.toNat = b.toNat := by
    rw [Char.ofNat, dif_pos (.inl (by omega))]
    rfl
  have hiff : ((Char.ofNat b.toNat).val ≥ 'A'.val ∧ (Char.ofNat b.toNat).val ≤ 'Z'.val) ↔
      65 ≤ b.toNat ∧ b.toNat ≤ 90 := by
    rw [ge_iff_le, UInt32.le_iff_toNat_le, UInt32.le_iff_toNat_le, hchar]
    rfl
  unfold nameChar Char.toLower
  simp only [hiff]
  split_ifs with hupper
  · change ((Char.ofNat b.toNat).val + 32).toNat = _
    rw [UInt32.toNat_add, hchar]
    exact Nat.mod_eq_of_lt (by simp; omega)
  · exact hchar

lemma nameByte_lower {b : UInt8} (h : NameByte b) : b.toNat ≤ 0x7f ∧
    ∃ b', String.utf8EncodeChar (nameChar b) = [b'] ∧ NameByte b' ∧ nameChar b' = nameChar b := by
  rw [nameByte_iff] at h
  have hlow : (nameChar b).toNat = 45 ∨ (97 ≤ (nameChar b).toNat ∧ (nameChar b).toNat ≤ 122) := by
    rw [toNat_nameChar (by omega)]
    split_ifs <;> omega
  have hbyte : (UInt8.ofNat (nameChar b).toNat).toNat = (nameChar b).toNat := by
    rw [UInt8.toNat_ofNat']
    exact Nat.mod_eq_of_lt (by omega)
  refine ⟨by omega, UInt8.ofNat (nameChar b).toNat, ?_, nameByte_iff.2 (by omega), ?_⟩
  · unfold String.utf8EncodeChar
    exact if_pos (show (nameChar b).toNat ≤ 0x7f by omega)
  · rw [← Char.toNat_inj, toNat_nameChar (by omega), hbyte, if_neg (by omega)]

/-- The bytes of a name in lower case are those of a name, and its characters. -/
lemma lower_bytes {bs : List UInt8} (h : ∀ b ∈ bs, NameByte b) :
    (∀ b ∈ encode (bs.map nameChar), NameByte b) ∧
      (encode (bs.map nameChar)).map nameChar = bs.map nameChar := by
  induction bs with
  | nil => exact ⟨fun b hb => (by cases hb), rfl⟩
  | cons b bs ih =>
      rw [List.forall_mem_cons] at h
      obtain ⟨-, b', henc, hname, hchar⟩ := nameByte_lower h.1
      obtain ⟨hall, hmap⟩ := ih h.2
      rw [List.map_cons, encode_cons, henc, List.cons_append, List.nil_append, List.map_cons, hchar,
        hmap]
      exact ⟨List.forall_mem_cons.2 ⟨hname, hall⟩, rfl⟩

lemma letters_documented : letters.Documented where
  lower key name h := by
    simp only [letters] at h
    split_ifs at h with hbytes
    cases h
    have hascii := encode_ascii fun b hb => (nameByte_lower (hbytes.2 b hb)).1
    unfold lower
    conv_rhs => rw [← hascii, List.map_map]
    rfl
  normal key name h := by
    simp only [letters] at h ⊢
    split_ifs at h with hbytes
    cases h
    obtain ⟨hall, hmap⟩ := lower_bytes hbytes.2
    have hne : encode ((encode key.toList).map nameChar) ≠ [] := by
      intro hnil
      rw [hnil, List.map_nil] at hmap
      exact hbytes.1 (List.map_eq_nil_iff.1 hmap.symm)
    rw [String.toList_ofList, hmap, if_pos ⟨hne, hall⟩]
  contentType := by decide
  value bytes h := decide_eq_true h

/-- A response with two headers, one of them with two values. -/
theorem response_accepted_headers :
    ∃ v out, response letters 200 (.string "hi".toList) "text/plain".toList
        (.object [("X-A", .vec [.string "v".toList, .bytes [119]]), ("x-b", .string [])]) = .ok v ∧
      decodeOutput letters v = .ok out ∧ out.status = 200 ∧ out.headers =
        [("content-type", encode "text/plain".toList), ("x-a", [118]), ("x-a", [119]), ("x-b", [])] := by
  have hresponse : response letters 200 (.string "hi".toList) "text/plain".toList
      (.object [("X-A", .vec [.string "v".toList, .bytes [119]]), ("x-b", .string [])]) = .ok _ := rfl
  obtain ⟨hs, b, out, hextra, -, hdecode, hstatus, -, hheaders⟩ :=
    response_accepted letters_documented hresponse
  refine ⟨_, out, rfl, hdecode, Int.ofNat.inj hstatus, ?_⟩
  cases hextra
  rw [hheaders]
  rfl

end Web

end Rnx
