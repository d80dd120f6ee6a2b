import Rnx.Http.Routes
import Rnx.Lib.Utf8

/-!
# Percent-encoded text

`Decoded`, `decoded_len` and `decode` of `web.rs`.  A percent-encoded text is decoded lazily, byte by
byte; an escape that is malformed stays as it is.  `decoded_len` takes the decoded bytes one scalar at
a time and checks each in a buffer of the scalar's size, so that nothing is copied before the whole
text is known to be UTF-8.

* `collect_eq` — the bytes the stream gives are those of `percentDecode`;
* `decodedLen_eq` — the scalars are accepted exactly when the decoded bytes are UTF-8;
* `decode_eq` — what is decoded after the check is the text of the decoded bytes.
-/

namespace Rnx

open Utf8

namespace Web

/-- `hex`. -/
def hex (b : UInt8) : Option UInt8 := Http.hexDigit b

/-- `Decoded`: the bytes not read yet. -/
structure Decoded where
  bytes : List UInt8
  plus : Bool
deriving DecidableEq, Repr

/-- A byte that is not part of an escape. -/
def plain (plus : Bool) (b : UInt8) : UInt8 := if plus && b = 43 then 32 else b

/-- The value of an escape's digits. -/
def escaped (hi lo : UInt8) : Option UInt8 :=
  match hex hi, hex lo with
  | some hi, some lo => some (hi * 16 + lo)
  | _, _ => none

/-- The value of an escape, from the bytes after its `%`, and the bytes that follow it. -/
def escape : List UInt8 → Option (UInt8 × List UInt8)
  | hi :: lo :: rest => (escaped hi lo).map fun value => (value, rest)
  | _ => none

namespace Decoded

/-- `next`. -/
def next (s : Decoded) : Option (UInt8 × Decoded) :=
  match s.bytes with
  | [] => none
  | b :: rest =>
      match if b = 37 then escape rest else none with
      | some (value, rest) => some (value, { s with bytes := rest })
      | none => some (plain s.plus b, { s with bytes := rest })

lemma escape_length {bs rest : List UInt8} {b : UInt8} (h : escape bs = some (b, rest)) :
    rest.length < bs.length := by
  unfold escape at h
  split at h
  · obtain ⟨value, -, heq⟩ := Option.map_eq_some_iff.1 h
    cases heq
    simp only [List.length_cons]
    omega
  · cases h

lemma next_length {s s' : Decoded} {b : UInt8} (h : s.next = some (b, s')) :
    s'.bytes.length < s.bytes.length := by
  unfold next at h
  split at h
  · cases h
  · next b₀ rest heq =>
      rw [heq, List.length_cons]
      split at h
      · next hescape =>
          cases h
          split_ifs at hescape
          exact Nat.lt_succ_of_lt (escape_length hescape)
      · cases h
        exact Nat.lt_succ_self _

/-- The bytes the stream gives. -/
def collect (s : Decoded) : List UInt8 :=
  match _h : s.next with
  | none => []
  | some (b, s) => b :: s.collect
termination_by s.bytes.length
decreasing_by exact next_length _h

/-- The bytes of a buffer after the first: `n` of them. -/
def fill : Nat → Decoded → Option (List UInt8 × Decoded)
  | 0, s => some ([], s)
  | n + 1, s => do
      let (b, s) ← s.next
      let (bs, s) ← fill n s
      some (b :: bs, s)

lemma fill_length {n : Nat} {s s' : Decoded} {bs : List UInt8} (h : fill n s = some (bs, s')) :
    s'.bytes.length ≤ s.bytes.length := by
  induction n generalizing s bs with
  | zero =>
      cases h
      exact Nat.le_refl _
  | succ n ih =>
      simp only [fill, Option.bind_eq_bind, Option.bind_eq_some_iff] at h
      obtain ⟨⟨b, s₁⟩, hnext, ⟨bs₁, s₂⟩, hfill, h⟩ := h
      cases h
      exact Nat.le_trans (ih hfill) (Nat.le_of_lt (next_length hnext))

end Decoded

/-- The message of `decoded_len`. -/
def notUtf8 : String := "web: decoded component is not UTF-8"

/-- The bytes of a scalar, from its first. -/
def lead (b : UInt8) : Option Nat :=
  if b.toNat ≤ 127 then some 1
  else if 0xc2 ≤ b.toNat ∧ b.toNat ≤ 0xdf then some 2
  else if 0xe0 ≤ b.toNat ∧ b.toNat ≤ 0xef then some 3
  else if 0xf0 ≤ b.toNat ∧ b.toNat ≤ 0xf4 then some 4
  else none

/-- The loop of `decoded_len`. -/
def decodedLenFrom (s : Decoded) (len : Nat) : Except String Nat :=
  match _h : s.next with
  | none => .ok len
  | some (b, s₁) =>
      match lead b with
      | none => .error notUtf8
      | some n =>
          match _h' : s₁.fill (n - 1) with
          | none => .error notUtf8
          | some (bs, s₂) =>
              if (fromUtf8 (b :: bs)).error = none then decodedLenFrom s₂ (len + n)
              else .error notUtf8
termination_by s.bytes.length
decreasing_by exact Nat.lt_of_le_of_lt (Decoded.fill_length _h') (Decoded.next_length _h)

/-- `decoded_len`. -/
def decodedLen (s : List Char) (plus : Bool) : Except String Nat :=
  decodedLenFrom ⟨encode s, plus⟩ 0

/-- `decode`. -/
def decode (s : List Char) (plus : Bool) : Except String (List Char) := do
  let _ ← decodedLen s plus
  let out := fromUtf8 (Decoded.collect ⟨encode s, plus⟩)
  if out.error = none then .ok out.text else .error out.message

/-! ## The decoded bytes -/

/-- The percent-decoded bytes of a text: a malformed escape stays as it is. -/
def percentDecode (plus : Bool) : List UInt8 → List UInt8
  | b :: hi :: lo :: rest =>
      match if b = 37 then escaped hi lo else none with
      | some value => value :: percentDecode plus rest
      | none => plain plus b :: percentDecode plus (hi :: lo :: rest)
  | bs => bs.map (plain plus)

lemma collect_nil {s : Decoded} (h : s.next = none) : s.collect = [] := by
  rw [Decoded.collect]
  split
  · rfl
  · next heq =>
      rw [h] at heq
      cases heq

lemma collect_cons {s s' : Decoded} {b : UInt8} (h : s.next = some (b, s')) :
    s.collect = b :: s'.collect := by
  rw [Decoded.collect]
  split
  · next heq =>
      rw [h] at heq
      cases heq
  · next heq =>
      rw [h] at heq
      cases heq
      rfl

lemma next_short {b : UInt8} {bs : List UInt8} {plus : Bool} (h : bs.length < 2) :
    Decoded.next ⟨b :: bs, plus⟩ = some (plain plus b, ⟨bs, plus⟩) := by
  have hescape : escape bs = none := by
    unfold escape
    split
    · simp only [List.length_cons] at h
      omega
    · rfl
  simp only [Decoded.next, hescape, ite_self]

/-- The stream gives the percent-decoded bytes. -/
lemma collect_eq (bs : List UInt8) (plus : Bool) :
    Decoded.collect ⟨bs, plus⟩ = percentDecode plus bs := by
  induction bs using percentDecode.induct with
  | case1 b hi lo rest value h ih =>
      have hnext : Decoded.next ⟨b :: hi :: lo :: rest, plus⟩ = some (value, ⟨rest, plus⟩) := by
        split_ifs at h with hb
        simp only [Decoded.next, if_pos hb, escape, h, Option.map_some]
      rw [collect_cons hnext, ih, percentDecode, h]
  | case2 b hi lo rest h ih =>
      have hnext : Decoded.next ⟨b :: hi :: lo :: rest, plus⟩ =
          some (plain plus b, ⟨hi :: lo :: rest, plus⟩) := by
        have hescape : (if b = 37 then escape (hi :: lo :: rest) else none) = none := by
          split_ifs at h ⊢
          · rw [escape, h, Option.map_none]
          · rfl
        simp only [Decoded.next, hescape]
      rw [collect_cons hnext, ih, percentDecode, h]
  | case3 bs h =>
      rcases bs with _ | ⟨b, _ | ⟨b', _ | ⟨b'', rest⟩⟩⟩
      · exact collect_nil rfl
      · rw [collect_cons (next_short (by decide)), collect_nil rfl]
        rfl
      · rw [collect_cons (next_short (by rw [List.length_singleton]; decide)),
          collect_cons (next_short (by decide)), collect_nil rfl]
        rfl
      · exact absurd rfl (h b b' b'' rest)

/-- The buffer of a scalar holds the next bytes of the stream. -/
lemma fill_eq (n : Nat) (s : Decoded) :
    (s.fill n = none ∧ s.collect.length < n) ∨
      ∃ s', s.fill n = some (s.collect.take n, s') ∧ n ≤ s.collect.length ∧
        s'.collect = s.collect.drop n := by
  induction n generalizing s with
  | zero => exact .inr ⟨s, rfl, Nat.zero_le _, rfl⟩
  | succ n ih =>
      cases hnext : s.next with
      | none =>
          refine .inl ⟨by simp only [Decoded.fill, hnext]; rfl, ?_⟩
          rw [collect_nil hnext]
          exact Nat.succ_pos n
      | some pair =>
          obtain ⟨b, s₁⟩ := pair
          rw [collect_cons hnext]
          obtain ⟨hfill, hlen⟩ | ⟨s₂, hfill, hlen, hrest⟩ := ih s₁
          · refine .inl ⟨?_, Nat.succ_lt_succ hlen⟩
            simp only [Decoded.fill, hnext, Option.bind_eq_bind, Option.bind_some, hfill,
              Option.bind_none]
          · refine .inr ⟨s₂, ?_, Nat.succ_le_succ hlen, hrest⟩
            simp only [Decoded.fill, hnext, Option.bind_eq_bind, Option.bind_some, hfill]
            rfl

lemma lead_eq (b : UInt8) : lead b = if width b = 0 then none else some (width b) := by
  unfold lead width
  split_ifs <;> first | rfl | contradiction

/-- A buffer that holds a scalar's bytes is accepted when they are one scalar. -/
lemma buffer_ok {b : UInt8} {ds : List UInt8} :
    (fromUtf8 (b :: ds.take (width b - 1))).error = none ↔
      ∃ c, front b ds = .scalar c (width b - 1) := by
  rw [fromUtf8_cons]
  constructor
  · rintro ⟨c, k, hfront, -⟩
    have hk := front_scalar_width hfront
    have happend := front_append (by rw [hfront]; exact Front.noConfusion) (ds.drop (width b - 1))
    rw [List.take_append_drop, hfront] at happend
    exact ⟨c, by rw [happend, show width b - 1 = k by omega]⟩
  · rintro ⟨c, hfront⟩
    refine ⟨c, width b - 1, front_take hfront, ?_⟩
    rw [List.drop_take, Nat.sub_self, List.take_zero, fromUtf8_nil]

/-- The loop accepts the bytes of the stream exactly when they are UTF-8. -/
lemma decodedLenFrom_eq (s : Decoded) (len : Nat) : decodedLenFrom s len =
    if (fromUtf8 s.collect).error = none then .ok (len + s.collect.length) else .error notUtf8 := by
  induction h : s.bytes.length using Nat.strongRecOn generalizing s len with
  | _ m ih =>
      rw [decodedLenFrom]
      split
      · next hnext =>
          rw [collect_nil hnext, fromUtf8_nil]
          rfl
      · next b s₁ hnext =>
          rw [collect_cons hnext]
          -- nothing is accepted but a scalar of the width its first byte gives
          have hrefused : (¬∃ c, front b s₁.collect = .scalar c (width b - 1)) →
              (fromUtf8 (b :: s₁.collect)).error ≠ none := by
            intro hnone herror
            obtain ⟨c, k, hfront, -⟩ := fromUtf8_cons.1 herror
            have hk := front_scalar_width hfront
            exact hnone ⟨c, by rw [hfront, show width b - 1 = k by omega]⟩
          have hlead := lead_eq b
          split
          · next hb =>
              have hzero : width b = 0 := by
                by_contra hne
                rw [hb, if_neg hne] at hlead
                cases hlead
              rw [if_neg (hrefused _)]
              rintro ⟨c, hfront⟩
              have := front_scalar_width hfront
              omega
          · next n hb =>
              have hn : n = width b := by
                rw [hb] at hlead
                split_ifs at hlead with hzero
                exact Option.some.inj hlead
              subst hn
              split
              · next hfill =>
                  rw [if_neg (hrefused _)]
                  rintro ⟨c, hfront⟩
                  obtain ⟨-, hlen⟩ | ⟨s₂, hfill', -, -⟩ := fill_eq (width b - 1) s₁
                  · have := (front_scalar hfront).1
                    omega
                  · rw [hfill] at hfill'
                    cases hfill'
              · next bs s₂ hfill =>
                  obtain ⟨hnone, -⟩ | ⟨s₂', hfill', hlen, hrest⟩ := fill_eq (width b - 1) s₁
                  · rw [hfill] at hnone
                    cases hnone
                  · rw [hfill] at hfill'
                    cases hfill'
                    have hlt := Nat.lt_of_le_of_lt (Decoded.fill_length hfill)
                      (Decoded.next_length hnext)
                    by_cases hscalar : ∃ c, front b s₁.collect = .scalar c (width b - 1)
                    · obtain ⟨c, hfront⟩ := hscalar
                      have hwidth := front_scalar_width hfront
                      have hrest' : (fromUtf8 (b :: s₁.collect)).error =
                          (fromUtf8 s₂.collect).error := by
                        rw [fromUtf8_scalar hfront, hrest]
                      rw [if_pos (buffer_ok.2 ⟨c, hfront⟩), ih _ (h ▸ hlt) _ _ rfl, hrest',
                        hrest, List.length_drop, List.length_cons]
                      congr 2
                      omega
                    · rw [if_neg (fun hok => hscalar (buffer_ok.1 hok)), if_neg (hrefused hscalar)]

/-- **The check of a decoded component.**  It accepts exactly UTF-8, and counts the bytes. -/
lemma decodedLen_eq (s : List Char) (plus : Bool) : decodedLen s plus =
    if (fromUtf8 (percentDecode plus (encode s))).error = none then
      .ok (percentDecode plus (encode s)).length
    else .error notUtf8 := by
  unfold decodedLen
  rw [decodedLenFrom_eq, collect_eq, Nat.zero_add]

/-- The text a component decodes to, when its decoded bytes are UTF-8. -/
def component (s : List Char) (plus : Bool) : Option (List Char) :=
  let out := fromUtf8 (percentDecode plus (encode s))
  if out.error = none then some out.text else none

lemma component_eq_some {s cs : List Char} {plus : Bool} :
    component s plus = some cs ↔ percentDecode plus (encode s) = encode cs := by
  unfold component
  simp only
  constructor
  · intro h
    split_ifs at h with herror
    rw [← fromUtf8_ok.1 herror, Option.some.inj h]
  · intro h
    rw [h, fromUtf8_encode]
    rfl

lemma component_eq_none {s : List Char} {plus : Bool} :
    component s plus = none ↔ (fromUtf8 (percentDecode plus (encode s))).error ≠ none := by
  unfold component
  simp only
  split_ifs with h <;> simp [h]

/-- **Decoding fails only where the check does.** -/
lemma decode_eq (s : List Char) (plus : Bool) : decode s plus =
    match component s plus with
    | some text => .ok text
    | none => .error notUtf8 := by
  unfold decode component
  rw [decodedLen_eq, collect_eq]
  simp only
  split_ifs with h
  · rfl
  · rfl

lemma percentDecode_length (plus : Bool) (bs : List UInt8) :
    (percentDecode plus bs).length ≤ bs.length := by
  induction bs using percentDecode.induct with
  | case1 b hi lo rest value h ih =>
      rw [percentDecode, h]
      simp only [List.length_cons]
      omega
  | case2 b hi lo rest h ih =>
      rw [percentDecode, h]
      simp only [List.length_cons] at ih ⊢
      omega
  | case3 bs h =>
      rw [percentDecode]
      · exact Nat.le_of_eq (List.length_map _)
      · exact h

end Web

end Rnx
