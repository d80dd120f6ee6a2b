import Rnx.Lib.Hex
import Rnx.Project.DepWire

/-!
# The hexadecimal of an association

`hex` and `unhex` of `dep_wire.rs`.  A pair of bytes is read by the parser of numbers of the
language, which also takes a plus sign before the digits: a pair of a plus sign and a digit is read
as the digit.  What is written is read back, and what is read from digits alone is what was written,
in lower case.
-/

namespace Rnx

namespace Project

namespace DepWire

/-! ## The code -/

/-- `hex`. -/
def hex (bytes : List UInt8) : List Char := Hex.encode bytes

/-- `to_digit` of a byte. -/
def digit (b : UInt8) : Option Nat := Hex.value (Char.ofNat b.toNat)

/-- The number that digits stand for, from what was read on, below 256. -/
def digits (acc : Nat) : List UInt8 → Option Nat
  | [] => some acc
  | b :: rest =>
      match digit b with
      | none => none
      | some d => if acc * 16 + d < 256 then digits (acc * 16 + d) rest else none

/-- `u8::from_str_radix`, with the radix 16: a plus sign may stand before digits, and a sign alone is
no number. -/
def fromStrRadix : List UInt8 → Option Nat
  | [] => none
  | [b] => if b = 43 ∨ b = 45 then none else digits 0 [b]
  | b :: rest => if b = 43 then digits 0 rest else digits 0 (b :: rest)

/-- The pairs of `unhex`. -/
def unhexPairs : List UInt8 → Except String (List UInt8)
  | a :: b :: rest =>
      if (Utf8.fromUtf8 [a, b]).error.isSome then .error "association encoding"
      else
        match fromStrRadix [a, b] with
        | none => .error "association encoding"
        | some n => do
          let bytes ← unhexPairs rest
          pure (UInt8.ofNat n :: bytes)
  | _ => .ok []

/-- `unhex`. -/
def unhex (s : List Char) : Except String (List UInt8) :=
  if 32768 < (Utf8.encode s).length ∨ (Utf8.encode s).length % 2 ≠ 0 then
    .error "association length refused"
  else unhexPairs (Utf8.encode s)

/-! ## Pairs -/

/-- Pairs of a digit, or a plus sign, and a digit. -/
inductive Pairs : List UInt8 → Prop
  | nil : Pairs []
  | cons {a b rest} : (digit a).isSome ∨ a = 43 → (digit b).isSome → Pairs rest →
      Pairs (a :: b :: rest)

variable {a b : UInt8} {n x y : Nat} {bs out : List UInt8} {s : List Char}

lemma toNat_charOf (b : UInt8) : (Char.ofNat b.toNat).toNat = b.toNat :=
  Utf8.toNat_charOfNat (Or.inl (Nat.lt_trans b.toNat_lt (by decide)))

lemma digit_lt (h : digit b = some n) : n < 16 ∧ b.toNat < 128 := by
  obtain ⟨hlt, hcases⟩ := Hex.value_cases h
  rw [toNat_charOf] at hcases
  omega

lemma digit_plus : digit 43 = none := by decide

/-- The digit of a value is the character in lower case. -/
lemma digitChar_digit (h : digit b = some n) : Nat.digitChar n = (Char.ofNat b.toNat).toLower :=
  Hex.digitChar_value h

lemma digits_pair (hx : digit a = some x) (hy : digit b = some y) :
    digits 0 [a, b] = some (x * 16 + y) := by
  have hxlt := (digit_lt hx).1
  have hylt := (digit_lt hy).1
  unfold digits digits digits
  rw [hx, hy]
  dsimp only
  rw [Nat.zero_mul, Nat.zero_add, if_pos (by omega), if_pos (by omega)]

lemma digits_isSome {acc : Nat} (h : (digits acc bs).isSome) : ∀ b ∈ bs, (digit b).isSome := by
  induction bs generalizing acc with
  | nil => exact List.forall_mem_nil _
  | cons b bs ih =>
    unfold digits at h
    cases hb : digit b with
    | none =>
      rw [hb] at h
      cases h
    | some d =>
      rw [hb] at h
      dsimp only at h
      split_ifs at h with hlt
      · exact List.forall_mem_cons.2 ⟨by rw [hb]; rfl, ih h⟩
      · cases h

lemma digits_single (hy : digit b = some y) : digits 0 [b] = some y := by
  have hylt := (digit_lt hy).1
  unfold digits digits
  rw [hy]
  dsimp only
  rw [Nat.zero_mul, Nat.zero_add, if_pos (by omega)]

/-- What the parser of numbers takes from a pair. -/
lemma fromStrRadix_pair : fromStrRadix [a, b] = if a = 43 then digits 0 [b] else digits 0 [a, b] :=
  rfl

lemma ascii_text (ha : a.toNat < 128) (hb : b.toNat < 128) :
    (Utf8.fromUtf8 [a, b]).error = none := by
  have hchar : ∀ b : UInt8, b.toNat < 128 → Utf8.encode [Char.ofNat b.toNat] = [b] := by
    intro b hb
    rw [Utf8.encode_cons, Utf8.encodeChar_one (Nat.le_of_lt_succ hb), UInt8.ofNat_toNat]
    rfl
  refine Utf8.fromUtf8_ok_iff.2 ⟨[Char.ofNat a.toNat, Char.ofNat b.toNat], ?_⟩
  have hcons : ∀ c d : Char, Utf8.encode [c, d] = Utf8.encode [c] ++ Utf8.encode [d] := fun c d =>
    Utf8.encode_append [c] [d]
  rw [hcons, hchar _ ha, hchar _ hb]
  rfl

lemma Pairs.ascii (h : Pairs bs) : ∀ b ∈ bs, b.toNat < 128 := by
  have hdigit : ∀ b : UInt8, (digit b).isSome → b.toNat < 128 := by
    intro b hb
    obtain ⟨n, hn⟩ := Option.isSome_iff_exists.1 hb
    exact (digit_lt hn).2
  induction h with
  | nil => exact List.forall_mem_nil _
  | cons ha hb _ ih =>
    refine List.forall_mem_cons.2 ⟨?_, List.forall_mem_cons.2 ⟨hdigit _ hb, ih⟩⟩
    obtain ha | rfl := ha
    · exact hdigit _ ha
    · decide

/-- Pairs are read. -/
lemma unhexPairs_of_pairs (h : Pairs bs) : ∃ out, unhexPairs bs = .ok out := by
  induction h with
  | nil => exact ⟨[], rfl⟩
  | @cons a b rest ha hb hrest ih =>
    obtain ⟨out, hout⟩ := ih
    obtain ⟨y, hy⟩ := Option.isSome_iff_exists.1 hb
    have hascii := (Pairs.cons ha hb hrest).ascii
    have htext := ascii_text (hascii a List.mem_cons_self)
      (hascii b (List.mem_cons_of_mem _ List.mem_cons_self))
    have hnumber : ∃ n, fromStrRadix [a, b] = some n := by
      rw [fromStrRadix_pair]
      split_ifs with hplus
      · exact ⟨y, digits_single hy⟩
      · obtain ⟨x, hx⟩ := Option.isSome_iff_exists.1 (ha.resolve_right hplus)
        exact ⟨_, digits_pair hx hy⟩
    obtain ⟨n, hn⟩ := hnumber
    refine ⟨UInt8.ofNat n :: out, ?_⟩
    unfold unhexPairs
    rw [htext, hn, hout]
    rfl

/-- What is read is made of pairs, and without a plus sign it is written as the same digits. -/
lemma unhexPairs_ok (heven : bs.length % 2 = 0) (h : unhexPairs bs = .ok out) :
    Pairs bs ∧ (43 ∉ bs → hex out = bs.map fun b => (Char.ofNat b.toNat).toLower) := by
  induction bs using unhexPairs.induct generalizing out with
  | case1 a b rest hvalid =>
    unfold unhexPairs at h
    rw [if_pos hvalid] at h
    cases h
  | case2 a b rest hvalid hnone =>
    unfold unhexPairs at h
    rw [if_neg hvalid, hnone] at h
    cases h
  | case3 a b rest hvalid n hn ih =>
    unfold unhexPairs at h
    rw [if_neg hvalid, hn] at h
    cases hrun : unhexPairs rest with
    | error e =>
      rw [hrun] at h
      cases h
    | ok more =>
      rw [hrun] at h
      obtain rfl := Except.ok.inj h
      rw [List.length_cons, List.length_cons] at heven
      obtain ⟨hrest, hback⟩ := ih (by omega) hrun
      rw [fromStrRadix_pair] at hn
      split_ifs at hn with hplus
      · have hdigits : (digits 0 [b]).isSome := by
          rw [hn]
          rfl
        have hsome := digits_isSome hdigits b List.mem_cons_self
        exact ⟨.cons (.inr hplus) hsome hrest, fun hmem => absurd (hplus ▸ List.mem_cons_self) hmem⟩
      · have hdigits : (digits 0 [a, b]).isSome := by
          rw [hn]
          rfl
        have hsome := digits_isSome hdigits
        have ha := hsome a List.mem_cons_self
        have hb := hsome b (List.mem_cons_of_mem _ List.mem_cons_self)
        refine ⟨.cons (.inl ha) hb hrest, fun hmem => ?_⟩
        obtain ⟨x, hx⟩ := Option.isSome_iff_exists.1 ha
        obtain ⟨y, hy⟩ := Option.isSome_iff_exists.1 hb
        have hxlt := (digit_lt hx).1
        have hylt := (digit_lt hy).1
        rw [digits_pair hx hy] at hn
        obtain rfl := Option.some.inj hn
        rw [List.mem_cons, List.mem_cons, not_or, not_or] at hmem
        have hbyte : (UInt8.ofNat (x * 16 + y)).toNat = x * 16 + y := by
          rw [UInt8.toNat_ofNat']
          omega
        have hcons : hex (UInt8.ofNat (x * 16 + y) :: more) =
            Nat.digitChar x :: Nat.digitChar y :: hex more := by
          show [Nat.digitChar _, Nat.digitChar _] ++ hex more = _
          rw [hbyte, show (x * 16 + y) / 16 = x by omega, show (x * 16 + y) % 16 = y by omega]
          rfl
        rw [hcons, hback hmem.2.2, digitChar_digit hx, digitChar_digit hy]
        rfl
  | case4 bs hshort =>
    cases bs with
    | nil => exact ⟨.nil, fun _ => by unfold unhexPairs at h; cases h; rfl⟩
    | cons a rest =>
      cases rest with
      | nil => exact absurd heven Nat.one_ne_zero
      | cons b rest => exact (hshort a b rest rfl).elim

/-! ## Texts -/

/-- The digit of a value, as a byte. -/
lemma encode_digit (h : n < 16) : ∃ b, Utf8.encode [Nat.digitChar n] = [b] ∧
    (digit b).isSome := by
  have hvalue := Hex.value_digitChar n h
  have hlt : (Nat.digitChar n).toNat < 128 := by
    obtain ⟨-, hcases⟩ := Hex.value_cases hvalue
    omega
  refine ⟨UInt8.ofNat (Nat.digitChar n).toNat, ?_, ?_⟩
  · have hone := Utf8.encodeChar_one (Nat.le_of_lt_succ hlt)
    rw [Char.ofNat_toNat] at hone
    rw [Utf8.encode_cons, hone]
    rfl
  · have hbyte : (UInt8.ofNat (Nat.digitChar n).toNat).toNat = (Nat.digitChar n).toNat := by
      rw [UInt8.toNat_ofNat']
      omega
    unfold digit
    rw [hbyte, Char.ofNat_toNat, hvalue]
    rfl

/-- The digits of bytes, as bytes. -/
lemma encode_hex (bs : List UInt8) : Pairs (Utf8.encode (hex bs)) ∧ 43 ∉ Utf8.encode (hex bs) ∧
    (Utf8.encode (hex bs)).length = 2 * bs.length := by
  induction bs with
  | nil => exact ⟨.nil, List.not_mem_nil, rfl⟩
  | cons b bs ih =>
    obtain ⟨hpairs, hplus, hlength⟩ := ih
    have hb := b.toNat_lt
    obtain ⟨h, hhigh, hh⟩ := encode_digit (n := b.toNat / 16) (by omega)
    obtain ⟨l, hlow, hl⟩ := encode_digit (n := b.toNat % 16) (by omega)
    have hcons : Utf8.encode (hex (b :: bs)) =
        h :: l :: Utf8.encode (hex bs) := by
      show Utf8.encode ([Nat.digitChar _] ++ ([Nat.digitChar _] ++ hex bs)) = _
      rw [Utf8.encode_append, Utf8.encode_append, hhigh, hlow]
      rfl
    have hplus' : ∀ c : UInt8, (digit c).isSome → 43 ≠ c := by
      rintro c hc rfl
      rw [digit_plus] at hc
      cases hc
    rw [hcons]
    refine ⟨.cons (.inl hh) hl hpairs, ?_, ?_⟩
    · rw [List.mem_cons, List.mem_cons, not_or, not_or]
      exact ⟨hplus' _ hh, hplus' _ hl, hplus⟩
    · rw [List.length_cons, List.length_cons, hlength, List.length_cons]
      omega

/-- What is written is in lower case. -/
lemma hex_lower (bs : List UInt8) : (hex bs).map Char.toLower = hex bs := by
  have hall : ∀ n < 16, (Nat.digitChar n).toLower = Nat.digitChar n := by decide
  induction bs with
  | nil => rfl
  | cons b bs ih =>
    have hb := b.toNat_lt
    have hcons : hex (b :: bs) =
        Nat.digitChar (b.toNat / 16) :: Nat.digitChar (b.toNat % 16) :: hex bs := rfl
    rw [hcons, List.map_cons, List.map_cons, ih, hall _ (by omega), hall _ (by omega)]

/-- The characters of a text that is made of pairs. -/
lemma Pairs.text (h : Pairs (Utf8.encode s)) :
    (Utf8.encode s).map (fun b => Char.ofNat b.toNat) = s :=
  Utf8.encode_ascii fun b hb => Nat.le_of_lt_succ (h.ascii b hb)

lemma Pairs.even (h : Pairs bs) : bs.length % 2 = 0 := by
  induction h with
  | nil => rfl
  | cons _ _ _ ih =>
    rw [List.length_cons, List.length_cons]
    omega

lemma Pairs.isSome (h : Pairs bs) (hplus : 43 ∉ bs) : ∀ b ∈ bs, (digit b).isSome := by
  induction h with
  | nil => exact List.forall_mem_nil _
  | cons ha hb _ ih =>
    rw [List.mem_cons, List.mem_cons, not_or, not_or] at hplus
    refine List.forall_mem_cons.2 ⟨ha.resolve_right fun h => hplus.1 h.symm, ?_⟩
    exact List.forall_mem_cons.2 ⟨hb, ih hplus.2.2⟩

lemma unhex_of_length (hlimit : (Utf8.encode s).length ≤ 32768)
    (heven : (Utf8.encode s).length % 2 = 0) : unhex s = unhexPairs (Utf8.encode s) :=
  if_neg (by omega)

/-- What is read as bytes is made of pairs and within the limit. -/
lemma unhex_ok (h : unhex s = .ok out) :
    (Utf8.encode s).length ≤ 32768 ∧ Pairs (Utf8.encode s) ∧ (43 ∉ Utf8.encode s →
      hex out = (Utf8.encode s).map fun b => (Char.ofNat b.toNat).toLower) := by
  unfold unhex at h
  split_ifs at h with hlength
  have heven : (Utf8.encode s).length % 2 = 0 := by omega
  exact ⟨by omega, unhexPairs_ok heven h⟩

/-! ## The result -/

/-- What is read is written as the text, in lower case, which is digits in pairs and within the
limit. -/
structure Exact (s : List Char) (out : List UInt8) : Prop where
  limit : (Utf8.encode s).length ≤ 32768
  even : s.length % 2 = 0
  digits : ∀ c ∈ s, (Hex.value c).isSome
  back : hex out = s.map Char.toLower

/-- A text of pairs within the limit, one of which has a plus sign for its first digit. -/
structure Signed (s : List Char) : Prop where
  limit : (Utf8.encode s).length ≤ 32768
  pairs : Pairs (Utf8.encode s)
  plus : 43 ∈ Utf8.encode s

/-- **What is written is read, and what is read is exact unless a pair has a plus sign.** -/
theorem unhex_exact (bytes : List UInt8) (s : List Char) :
    (bytes.length ≤ 16384 → unhex (hex bytes) = .ok bytes) ∧
    ((∀ out, unhex s = .ok out → Exact s out) ↔ ¬ Signed s) := by
  constructor
  · intro hbytes
    obtain ⟨hpairs, hplus, hlength⟩ := encode_hex bytes
    obtain ⟨out, hout⟩ := unhexPairs_of_pairs hpairs
    have hback := (unhexPairs_ok hpairs.even hout).2 hplus
    have hlower : hex out = hex bytes := by
      have htext := congrArg (List.map Char.toLower) hpairs.text
      rw [List.map_map, hex_lower] at htext
      exact hback.trans htext
    have hsame : out = bytes := by
      have hdecode := congrArg Hex.decode hlower
      unfold hex at hdecode
      rw [Hex.decode_encoded, Hex.decode_encoded] at hdecode
      exact Option.some.inj hdecode
    rw [unhex_of_length (by omega) hpairs.even, hout, hsame]
  · constructor
    · intro h hsigned
      obtain ⟨out, hout⟩ := unhexPairs_of_pairs hsigned.pairs
      have hexact := h out ((unhex_of_length hsigned.limit hsigned.pairs.even).trans hout)
      have hmem : '+' ∈ s := by
        rw [← hsigned.pairs.text]
        exact List.mem_map_of_mem hsigned.plus
      exact absurd (hexact.digits _ hmem) (by decide)
    · intro hsigned out hout
      obtain ⟨hlimit, hpairs, hback⟩ := unhex_ok hout
      have hplus : 43 ∉ Utf8.encode s := fun hplus => hsigned ⟨hlimit, hpairs, hplus⟩
      have htext := hpairs.text
      have hlength := congrArg List.length htext
      rw [List.length_map] at hlength
      refine ⟨hlimit, hlength ▸ hpairs.even, ?_, ?_⟩
      · rw [← htext]
        intro c hc
        obtain ⟨b, hb, rfl⟩ := List.mem_map.1 hc
        exact hpairs.isSome hplus b hb
      · rw [hback hplus]
        conv_rhs => rw [← htext]
        rw [List.map_map]
        rfl

/-- Ten is written as `0a`, and read from it. -/
theorem unhex_exact_ten : unhex (hex [10]) = .ok [10] ∧ ∀ out, unhex ['0', 'a'] = .ok out →
    Exact ['0', 'a'] out :=
  ⟨(unhex_exact [10] ['0', 'a']).1 (by decide),
    (unhex_exact [10] ['0', 'a']).2.2 fun h => absurd h.plus (by decide)⟩

/-- The letter `a` after a plus sign is read as ten, which is written otherwise. -/
theorem unhex_plus : ¬ ((∀ bytes : List UInt8, bytes.length ≤ 16384 →
    unhex (hex bytes) = .ok bytes) ∧ ∀ s out, unhex s = .ok out → Exact s out) := by
  rintro ⟨-, h⟩
  have hread : unhex ['+', 'a'] = .ok [10] := by
    rw [unhex_of_length (by decide) (by decide)]
    change unhexPairs [43, 97] = .ok [10]
    unfold unhexPairs
    rw [ascii_text (by decide) (by decide)]
    rfl
  exact absurd (h _ _ hread).back (by decide)

end DepWire

end Project

end Rnx
