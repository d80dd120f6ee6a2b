import Mathlib.Algebra.Group.Nat.Defs
import Mathlib.Data.List.Basic

/-!
# UTF-8

Texts of bytes as the standard library of the language reads them: `front` is what stands at the
front of a text, a scalar, a byte sequence no scalar begins with, or the beginning of a scalar that
the text ends within.  `fromUtf8` is `str::from_utf8`, and `lossy` puts a replacement for each
maximal part that no scalar has.

* `front_scalar_iff` — a scalar at the front is its encoding;
* `fromUtf8_ok` — the texts that are accepted are the encodings of characters;
* `replaces_iff` — `lossy` is the decoding with one replacement for each maximal invalid part;
* `scan_append` — a text read in pieces is read as a whole.
-/

namespace Rnx

namespace Utf8

open String

/-- The bytes of characters. -/
def encode (cs : List Char) : List UInt8 := cs.flatMap utf8EncodeChar

@[simp] lemma encode_nil : encode [] = [] := rfl

@[simp] lemma encode_cons (c : Char) (cs : List Char) :
    encode (c :: cs) = utf8EncodeChar c ++ encode cs := rfl

lemma encode_append (cs cs' : List Char) : encode (cs ++ cs') = encode cs ++ encode cs' :=
  List.flatMap_append

/-! ## The front of a text -/

/-- How many bytes a scalar has that begins with the byte. -/
def width (b : UInt8) : Nat :=
  if b.toNat ≤ 0x7f then 1
  else if 0xc2 ≤ b.toNat ∧ b.toNat ≤ 0xdf then 2
  else if 0xe0 ≤ b.toNat ∧ b.toNat ≤ 0xef then 3
  else if 0xf0 ≤ b.toNat ∧ b.toNat ≤ 0xf4 then 4
  else 0

/-- A continuation byte. -/
def Continues (b : UInt8) : Prop := 0x80 ≤ b.toNat ∧ b.toNat ≤ 0xbf

instance (b : UInt8) : Decidable (Continues b) := inferInstanceAs (Decidable (_ ∧ _))

/-- The least second byte after a first. -/
def least (b : UInt8) : Nat := if b.toNat = 0xe0 then 0xa0 else if b.toNat = 0xf0 then 0x90 else 0x80

/-- The greatest second byte after a first. -/
def greatest (b : UInt8) : Nat :=
  if b.toNat = 0xed then 0x9f else if b.toNat = 0xf4 then 0x8f else 0xbf

/-- A second byte after a first. -/
def Second (b b' : UInt8) : Prop := least b ≤ b'.toNat ∧ b'.toNat ≤ greatest b

instance (b b' : UInt8) : Decidable (Second b b') := inferInstanceAs (Decidable (_ ∧ _))

/-- What stands at the front: a scalar with `more` bytes after its first, bytes that no scalar begins
with, `more` after the first, or the beginning of a scalar that the text ends within. -/
inductive Front
  | scalar (c : Char) (more : Nat)
  | invalid (more : Nat)
  | cut
deriving DecidableEq, Repr

/-- Continuation bytes: `k` bytes were read after the first, with the value `v` so far. -/
def tails (v k : Nat) : Nat → List UInt8 → Front
  | 0, _ => .scalar (Char.ofNat v) k
  | _ + 1, [] => .cut
  | n + 1, b :: bs =>
      if Continues b then tails (v * 64 + b.toNat % 64) (k + 1) n bs else .invalid k

/-- The front of a text. -/
def front (b : UInt8) (bs : List UInt8) : Front :=
  if width b = 0 then .invalid 0
  else if width b = 1 then .scalar (Char.ofNat b.toNat) 0
  else
    match bs with
    | [] => .cut
    | b' :: bs =>
        if Second b b' then
          tails (b.toNat % 2 ^ (7 - width b) * 64 + b'.toNat % 64) 1 (width b - 2) bs
        else .invalid 0

lemma width_le (b : UInt8) : width b ≤ 4 := by
  unfold width
  split_ifs <;> omega

lemma width_eq_one {b : UInt8} : width b = 1 ↔ b.toNat ≤ 0x7f := by
  unfold width
  split_ifs <;> simp <;> omega

lemma width_eq_two {b : UInt8} : width b = 2 ↔ 0xc2 ≤ b.toNat ∧ b.toNat ≤ 0xdf := by
  unfold width
  split_ifs <;> simp <;> omega

lemma width_eq_three {b : UInt8} : width b = 3 ↔ 0xe0 ≤ b.toNat ∧ b.toNat ≤ 0xef := by
  unfold width
  split_ifs <;> simp <;> omega

lemma width_eq_four {b : UInt8} : width b = 4 ↔ 0xf0 ≤ b.toNat ∧ b.toNat ≤ 0xf4 := by
  unfold width
  split_ifs <;> simp <;> omega

lemma front_of_width_one {b : UInt8} (h : width b = 1) (bs : List UInt8) :
    front b bs = .scalar (Char.ofNat b.toNat) 0 := by
  unfold front
  rw [if_neg (by omega), if_pos h]

lemma front_of_second {b b' : UInt8} (h : 2 ≤ width b) (h' : Second b b') (bs : List UInt8) :
    front b (b' :: bs) =
      tails (b.toNat % 2 ^ (7 - width b) * 64 + b'.toNat % 64) 1 (width b - 2) bs := by
  unfold front
  rw [if_neg (by omega), if_neg (by omega)]
  exact if_pos h'

lemma tails_of_continues {b : UInt8} (h : Continues b) (v k n : Nat) (bs : List UInt8) :
    tails v k (n + 1) (b :: bs) = tails (v * 64 + b.toNat % 64) (k + 1) n bs := if_pos h

lemma second_iff {b b' : UInt8} : Second b b' ↔ 0x80 ≤ b'.toNat ∧ b'.toNat ≤ 0xbf ∧
    (b.toNat = 0xe0 → 0xa0 ≤ b'.toNat) ∧ (b.toNat = 0xed → b'.toNat ≤ 0x9f) ∧
    (b.toNat = 0xf0 → 0x90 ≤ b'.toNat) ∧ (b.toNat = 0xf4 → b'.toNat ≤ 0x8f) := by
  unfold Second least greatest
  split_ifs <;> omega

lemma toNat_ofNat_lt {n : Nat} (h : n < 256) : (UInt8.ofNat n).toNat = n := by
  rw [UInt8.toNat_ofNat']
  exact Nat.mod_eq_of_lt h

/-! ## Encodings -/

/-- The encoding of a character, read from the front. -/
lemma front_encodeChar (c : Char) (bs : List UInt8) :
    ∃ b rest, utf8EncodeChar c = b :: rest ∧ front b (rest ++ bs) = .scalar c rest.length := by
  have hvalid : c.toNat < 0xd800 ∨ (0xdfff < c.toNat ∧ c.toNat < 0x110000) := c.valid
  have hchar : ∀ v k, v = c.toNat → Front.scalar (Char.ofNat v) k = .scalar c k := by
    rintro v k rfl
    rw [c.ofNat_toNat]
  have hcontinues : ∀ n, Continues (UInt8.ofNat (n % 64 + 0x80)) := by
    intro n
    unfold Continues
    rw [toNat_ofNat_lt (by omega)]
    omega
  have hmod : ∀ n, (UInt8.ofNat (n % 64 + 0x80)).toNat % 64 = n % 64 := by
    intro n
    rw [toNat_ofNat_lt (by omega)]
    omega
  unfold utf8EncodeChar
  simp only [show c.val.toNat = c.toNat from rfl]
  split_ifs with h₁ h₂ h₃
  · refine ⟨_, _, rfl, ?_⟩
    have hn := toNat_ofNat_lt (n := c.toNat) (by omega)
    rw [front_of_width_one (by rw [width_eq_one, hn]; exact h₁)]
    exact hchar _ _ hn
  · refine ⟨_, _, rfl, ?_⟩
    have hn := toNat_ofNat_lt (n := c.toNat / 64 % 0x20 + 0xc0) (by omega)
    have hw : width (UInt8.ofNat (c.toNat / 64 % 0x20 + 0xc0)) = 2 := by
      rw [width_eq_two, hn]
      omega
    have hsecond : Second (UInt8.ofNat (c.toNat / 64 % 0x20 + 0xc0))
        (UInt8.ofNat (c.toNat % 0x40 + 0x80)) := by
      rw [second_iff, hn, toNat_ofNat_lt (by omega)]
      omega
    rw [List.cons_append, front_of_second (by omega) hsecond, hw, hn, hmod]
    exact hchar _ _ (by omega)
  · refine ⟨_, _, rfl, ?_⟩
    have hn := toNat_ofNat_lt (n := c.toNat / 4096 % 0x10 + 0xe0) (by omega)
    have hw : width (UInt8.ofNat (c.toNat / 4096 % 0x10 + 0xe0)) = 3 := by
      rw [width_eq_three, hn]
      omega
    have hsecond : Second (UInt8.ofNat (c.toNat / 4096 % 0x10 + 0xe0))
        (UInt8.ofNat (c.toNat / 64 % 0x40 + 0x80)) := by
      rw [second_iff, hn, toNat_ofNat_lt (by omega)]
      omega
    rw [List.cons_append, front_of_second (by omega) hsecond, hw, hn, hmod, List.cons_append,
      tails_of_continues (hcontinues _), hmod]
    exact hchar _ _ (by omega)
  · refine ⟨_, _, rfl, ?_⟩
    have hn := toNat_ofNat_lt (n := c.toNat / 262144 % 0x08 + 0xf0) (by omega)
    have hw : width (UInt8.ofNat (c.toNat / 262144 % 0x08 + 0xf0)) = 4 := by
      rw [width_eq_four, hn]
      omega
    have hsecond : Second (UInt8.ofNat (c.toNat / 262144 % 0x08 + 0xf0))
        (UInt8.ofNat (c.toNat / 4096 % 0x40 + 0x80)) := by
      rw [second_iff, hn, toNat_ofNat_lt (by omega)]
      omega
    rw [List.cons_append, front_of_second (by omega) hsecond, hw, hn, hmod, List.cons_append,
      tails_of_continues (hcontinues _), hmod, List.cons_append,
      tails_of_continues (hcontinues _), hmod]
    exact hchar _ _ (by omega)

/-- Continuation bytes after a beginning, and the value they give it. -/
lemma tails_scalar {v k n m : Nat} {bs : List UInt8} {c : Char} (h : tails v k n bs = .scalar c m) :
    m = k + n ∧ n ≤ bs.length ∧ (∀ b ∈ bs.take n, Continues b) ∧
      c = Char.ofNat ((bs.take n).foldl (fun v b => v * 64 + b.toNat % 64) v) := by
  induction n generalizing v k bs with
  | zero =>
      cases h
      exact ⟨rfl, Nat.zero_le _, fun b hb => (by cases hb), rfl⟩
  | succ n ih =>
      cases bs with
      | nil => cases h
      | cons b bs =>
          by_cases hb : Continues b
          · rw [tails_of_continues hb] at h
            obtain ⟨hm, hlen, hall, hc⟩ := ih h
            refine ⟨by omega, Nat.succ_le_succ hlen, ?_, hc⟩
            rw [List.take_succ_cons]
            exact List.forall_mem_cons.2 ⟨hb, hall⟩
          · rw [tails, if_neg hb] at h
            cases h

lemma ofNat_eq {n : Nat} {b : UInt8} (h : n = b.toNat) : UInt8.ofNat n = b := by
  rw [h, UInt8.ofNat_toNat]

lemma toNat_charOfNat {v : Nat} (h : v.isValidChar) : (Char.ofNat v).val.toNat = v := by
  rw [Char.ofNat, dif_pos h]
  rfl

lemma encodeChar_one {n : Nat} (h : n ≤ 0x7f) :
    utf8EncodeChar (Char.ofNat n) = [UInt8.ofNat n] := by
  simp only [utf8EncodeChar, toNat_charOfNat (Or.inl (by omega) : n.isValidChar)]
  rw [if_pos h]

lemma encodeChar_two {b b' : UInt8} (h : width b = 2) (h' : Second b b') :
    utf8EncodeChar (Char.ofNat (b.toNat % 2 ^ (7 - 2) * 64 + b'.toNat % 64)) = [b, b'] := by
  rw [width_eq_two] at h
  obtain ⟨hleast, hgreatest, -⟩ := second_iff.1 h'
  have hv : (b.toNat % 2 ^ (7 - 2) * 64 + b'.toNat % 64).isValidChar := Or.inl (by omega)
  simp only [utf8EncodeChar, toNat_charOfNat hv]
  rw [if_neg (by omega), if_pos (by omega), ofNat_eq (b := b) (by omega),
    ofNat_eq (b := b') (by omega)]

lemma tail_div (v t : Nat) : (v * 64 + t % 64) / 64 = v := by omega

lemma ofNat_tail {b : UInt8} (h : 0x80 ≤ b.toNat ∧ b.toNat ≤ 0xbf) (v : Nat) :
    UInt8.ofNat ((v * 64 + b.toNat % 64) % 0x40 + 0x80) = b := ofNat_eq (by omega)

lemma encodeChar_three {b b' t : UInt8} (h : width b = 3) (h' : Second b b') (ht : Continues t) :
    utf8EncodeChar (Char.ofNat
      ((b.toNat % 2 ^ (7 - 3) * 64 + b'.toNat % 64) * 64 + t.toNat % 64)) = [b, b', t] := by
  rw [width_eq_three] at h
  obtain ⟨hleast, hgreatest, hlong, hsurrogate, -⟩ := second_iff.1 h'
  have hfirst : UInt8.ofNat (b.toNat % 2 ^ (7 - 3) % 0x10 + 0xe0) = b := ofNat_eq (by omega)
  have hsecond := ofNat_tail ⟨hleast, hgreatest⟩ (b.toNat % 2 ^ (7 - 3))
  -- The number without its last digit: neither short nor a surrogate's.
  have hhigh : 32 ≤ b.toNat % 2 ^ (7 - 3) * 64 + b'.toNat % 64 ∧
      (b.toNat % 2 ^ (7 - 3) * 64 + b'.toNat % 64 < 864 ∨
        895 < b.toNat % 2 ^ (7 - 3) * 64 + b'.toNat % 64) ∧
      b.toNat % 2 ^ (7 - 3) * 64 + b'.toNat % 64 < 1024 := by omega
  have hdiv : (b.toNat % 2 ^ (7 - 3) * 64 + b'.toNat % 64) / 64 = b.toNat % 2 ^ (7 - 3) :=
    tail_div _ _
  generalize b.toNat % 2 ^ (7 - 3) * 64 + b'.toNat % 64 = v at hsecond hhigh hdiv ⊢
  have hv : (v * 64 + t.toNat % 64).isValidChar := by
    unfold Nat.isValidChar
    omega
  have hbig : (v * 64 + t.toNat % 64) / 4096 = v / 64 := by
    rw [show 4096 = 64 * 64 from rfl, ← Nat.div_div_eq_div_mul, tail_div]
  simp only [utf8EncodeChar, toNat_charOfNat hv]
  rw [if_neg (by omega), if_neg (by omega), if_pos (by omega), hbig, hdiv, hfirst, tail_div, hsecond,
    ofNat_tail ht]

lemma encodeChar_four {b b' t t' : UInt8} (h : width b = 4) (h' : Second b b') (ht : Continues t)
    (ht' : Continues t') :
    utf8EncodeChar (Char.ofNat (((b.toNat % 2 ^ (7 - 4) * 64 + b'.toNat % 64) * 64 + t.toNat % 64) *
      64 + t'.toNat % 64)) = [b, b', t, t'] := by
  rw [width_eq_four] at h
  obtain ⟨hleast, hgreatest, -, -, hlong, hlast⟩ := second_iff.1 h'
  have hfirst : UInt8.ofNat (b.toNat % 2 ^ (7 - 4) % 0x08 + 0xf0) = b := ofNat_eq (by omega)
  have hsecond := ofNat_tail ⟨hleast, hgreatest⟩ (b.toNat % 2 ^ (7 - 4))
  -- The number without its last two digits: neither short nor past the last character's.
  have hhigh : 16 ≤ b.toNat % 2 ^ (7 - 4) * 64 + b'.toNat % 64 ∧
      b.toNat % 2 ^ (7 - 4) * 64 + b'.toNat % 64 < 272 := by omega
  have hdiv : (b.toNat % 2 ^ (7 - 4) * 64 + b'.toNat % 64) / 64 = b.toNat % 2 ^ (7 - 4) :=
    tail_div _ _
  generalize b.toNat % 2 ^ (7 - 4) * 64 + b'.toNat % 64 = v at hsecond hhigh hdiv ⊢
  have hlow : 1024 ≤ v * 64 + t.toNat % 64 ∧ v * 64 + t.toNat % 64 < 17408 := by omega
  have hthird := ofNat_tail ht v
  have hup : (v * 64 + t.toNat % 64) / 64 = v := tail_div _ _
  generalize v * 64 + t.toNat % 64 = u at hthird hlow hup ⊢
  have hv : (u * 64 + t'.toNat % 64).isValidChar := by
    unfold Nat.isValidChar
    omega
  have hbig : (u * 64 + t'.toNat % 64) / 4096 = v := by
    rw [show 4096 = 64 * 64 from rfl, ← Nat.div_div_eq_div_mul, tail_div, hup]
  have hbigger : (u * 64 + t'.toNat % 64) / 262144 = v / 64 := by
    rw [show 262144 = 4096 * 64 from rfl, ← Nat.div_div_eq_div_mul, hbig]
  simp only [utf8EncodeChar, toNat_charOfNat hv]
  rw [if_neg (by omega), if_neg (by omega), if_neg (by omega), hbigger, hdiv, hfirst, hbig, hsecond,
    tail_div, hthird, ofNat_tail ht']

/-- A scalar at the front is its encoding. -/
lemma front_scalar {b : UInt8} {bs : List UInt8} {c : Char} {k : Nat}
    (h : front b bs = .scalar c k) : k ≤ bs.length ∧ utf8EncodeChar c = b :: bs.take k := by
  have hwidth := width_le b
  by_cases h₁ : width b = 1
  · rw [front_of_width_one h₁] at h
    cases h
    rw [width_eq_one] at h₁
    refine ⟨Nat.zero_le _, ?_⟩
    rw [encodeChar_one h₁, UInt8.ofNat_toNat, List.take_zero]
  · unfold front at h
    split_ifs at h with h₀
    cases bs with
    | nil => cases h
    | cons b' bs =>
        simp only at h
        split_ifs at h with hsecond
        obtain ⟨hk, hlen, hall, hc⟩ := tails_scalar h
        refine ⟨by rw [List.length_cons]; omega, ?_⟩
        have hcase : width b = 2 ∨ width b = 3 ∨ width b = 4 := by omega
        obtain hw | hw | hw := hcase
        · rw [hw] at hk hc
          rw [hc, hk]
          exact encodeChar_two hw hsecond
        · rw [hw] at hk hlen hall hc
          obtain ⟨t, bs, rfl⟩ := List.exists_cons_of_length_pos hlen
          rw [hc, hk]
          exact encodeChar_three hw hsecond (hall t List.mem_cons_self)
        · rw [hw] at hk hlen hall hc
          obtain ⟨t, bs, rfl⟩ := List.exists_cons_of_length_pos (Nat.lt_of_lt_of_le Nat.two_pos hlen)
          obtain ⟨t', bs, rfl⟩ := List.exists_cons_of_length_pos (Nat.le_of_succ_le_succ hlen)
          rw [hc, hk]
          exact encodeChar_four hw hsecond (hall t List.mem_cons_self)
            (hall t' (List.mem_cons_of_mem _ List.mem_cons_self))

lemma front_scalar_iff {b : UInt8} {bs : List UInt8} {c : Char} :
    (∃ k, front b bs = .scalar c k) ↔ utf8EncodeChar c <+: b :: bs := by
  constructor
  · rintro ⟨k, h⟩
    rw [(front_scalar h).2]
    exact ⟨bs.drop k, by rw [List.cons_append, List.take_append_drop]⟩
  · rintro ⟨rest, h⟩
    obtain ⟨b', ts, heq, hfront⟩ := front_encodeChar c rest
    rw [heq, List.cons_append, List.cons.injEq] at h
    exact ⟨_, by rw [← h.1, ← h.2]; exact hfront⟩

/-- The bytes of a scalar are read by themselves. -/
lemma front_take {b : UInt8} {bs : List UInt8} {c : Char} {k : Nat}
    (h : front b bs = .scalar c k) : front b (bs.take k) = .scalar c k := by
  obtain ⟨hk, hbytes⟩ := front_scalar h
  obtain ⟨b', rest, heq, hfront⟩ := front_encodeChar c []
  rw [heq, List.cons.injEq] at hbytes
  rw [List.append_nil, hbytes.1, hbytes.2, List.length_take, Nat.min_eq_left hk] at hfront
  exact hfront

/-- Bytes below `0x80` are the characters of their values. -/
lemma encode_ascii {cs : List Char} (h : ∀ b ∈ encode cs, b.toNat ≤ 0x7f) :
    (encode cs).map (fun b => Char.ofNat b.toNat) = cs := by
  induction cs with
  | nil => rfl
  | cons c cs ih =>
      obtain ⟨b, rest, heq, hfront⟩ := front_encodeChar c (encode cs)
      rw [encode_cons, heq] at h ⊢
      rw [List.cons_append, List.forall_mem_cons] at h
      rw [front_of_width_one (width_eq_one.2 h.1), Front.scalar.injEq] at hfront
      rw [List.length_eq_zero_iff.1 hfront.2.symm] at h ⊢
      rw [List.cons_append, List.map_cons, hfront.1, List.nil_append, ih h.2]

/-! ## Beginnings -/

/-- More bytes do not change what was found at the front. -/
lemma tails_append {v k n : Nat} {bs : List UInt8} (h : tails v k n bs ≠ .cut)
    (more : List UInt8) : tails v k n (bs ++ more) = tails v k n bs := by
  induction n generalizing v k bs with
  | zero => rfl
  | succ n ih =>
      cases bs with
      | nil => exact absurd rfl h
      | cons b bs =>
          by_cases hb : Continues b
          · rw [tails_of_continues hb] at h
            rw [List.cons_append, tails_of_continues hb, tails_of_continues hb]
            exact ih h
          · rw [List.cons_append, tails, tails, if_neg hb, if_neg hb]

/-- More bytes do not change what was found at the front. -/
lemma front_append {b : UInt8} {bs : List UInt8} (h : front b bs ≠ .cut) (more : List UInt8) :
    front b (bs ++ more) = front b bs := by
  unfold front at h ⊢
  split_ifs at h ⊢
  · rfl
  · rfl
  · cases bs with
    | nil => exact absurd rfl h
    | cons b' bs =>
        simp only [List.cons_append] at h ⊢
        split_ifs at h ⊢
        · exact tails_append h more
        · rfl

lemma tails_replicate (v k n : Nat) :
    ∃ c, tails v k n (List.replicate n 0x80) = .scalar c (k + n) := by
  induction n generalizing v k with
  | zero => exact ⟨_, rfl⟩
  | succ n ih =>
      obtain ⟨c, h⟩ := ih (v * 64 + (0x80 : UInt8).toNat % 64) (k + 1)
      refine ⟨c, ?_⟩
      rw [List.replicate_succ, tails_of_continues (by decide), h, Nat.add_right_comm, Nat.add_assoc]

lemma tails_complete {v k n : Nat} {bs : List UInt8} (h : tails v k n bs = .cut) :
    ∃ more c, more ≠ [] ∧ bs.length + more.length = n ∧
      tails v k n (bs ++ more) = .scalar c (k + n) := by
  induction n generalizing v k bs with
  | zero => cases h
  | succ n ih =>
      cases bs with
      | nil =>
          obtain ⟨c, heq⟩ := tails_replicate v k (n + 1)
          exact ⟨_, c, List.cons_ne_nil _ _, by simp, heq⟩
      | cons b bs =>
          by_cases hb : Continues b
          · rw [tails_of_continues hb] at h
            obtain ⟨more, c, hne, hlen, heq⟩ := ih h
            refine ⟨more, c, hne, by rw [List.length_cons]; omega, ?_⟩
            rw [List.cons_append, tails_of_continues hb, heq, Nat.add_right_comm, Nat.add_assoc]
          · rw [tails, if_neg hb] at h
            cases h

lemma second_least (b : UInt8) : Second b (UInt8.ofNat (least b)) := by
  unfold Second
  have h : least b < 256 := by
    unfold least
    split_ifs <;> omega
  rw [toNat_ofNat_lt h]
  unfold least greatest
  split_ifs <;> omega

/-- A text that ends within a scalar begins an encoding, of more bytes. -/
lemma front_complete {b : UInt8} {bs : List UInt8} (h : front b bs = .cut) :
    bs.length < 3 ∧ ∃ more c, more ≠ [] ∧ utf8EncodeChar c = b :: bs ++ more := by
  have hwidth := width_le b
  have hfront : ∃ more c, more ≠ [] ∧ bs.length + more.length = width b - 1 ∧
      front b (bs ++ more) = .scalar c (width b - 1) := by
    unfold front at h
    split_ifs at h with h₀ h₁
    cases bs with
    | nil =>
        obtain ⟨c, heq⟩ := tails_replicate (b.toNat % 2 ^ (7 - width b) * 64 +
          (UInt8.ofNat (least b)).toNat % 64) 1 (width b - 2)
        refine ⟨UInt8.ofNat (least b) :: List.replicate (width b - 2) 0x80, c,
          List.cons_ne_nil _ _, by simp; omega, ?_⟩
        rw [List.nil_append, front_of_second (by omega) (second_least b), heq]
        congr 1
        omega
    | cons b' bs =>
        simp only at h
        split_ifs at h with hsecond
        obtain ⟨more, c, hne, hlen, heq⟩ := tails_complete h
        refine ⟨more, c, hne, by rw [List.length_cons]; omega, ?_⟩
        rw [List.cons_append, front_of_second (by omega) hsecond, heq]
        congr 1
        omega
  obtain ⟨more, c, hne, hlen, heq⟩ := hfront
  have hpos := List.length_pos_iff.2 hne
  refine ⟨by omega, more, c, hne, ?_⟩
  rw [(front_scalar heq).2, ← hlen, ← List.length_append, List.take_length, List.cons_append]

/-- The bytes begin the encoding of a character. -/
def Begins (part : List UInt8) : Prop := ∃ c, part <+: utf8EncodeChar c

lemma begins_cons {b : UInt8} {bs : List UInt8} :
    Begins (b :: bs) ↔ front b bs = .cut ∨ ∃ c, front b bs = .scalar c bs.length := by
  constructor
  · rintro ⟨c, rest, h⟩
    obtain ⟨b', ts, heq, hfront⟩ := front_encodeChar c []
    rw [heq, List.cons_append, List.cons.injEq] at h
    rw [List.append_nil, ← h.1, ← h.2] at hfront
    by_cases hcut : front b bs = .cut
    · exact .inl hcut
    · rw [front_append hcut] at hfront
      have hle := (front_scalar hfront).1
      rw [List.length_append] at hle
      refine .inr ⟨c, ?_⟩
      rw [hfront, List.length_append, show rest.length = 0 by omega, Nat.add_zero]
  · rintro (h | ⟨c, h⟩)
    · obtain ⟨-, more, c, -, heq⟩ := front_complete h
      exact ⟨c, more, heq.symm⟩
    · refine ⟨c, [], ?_⟩
      rw [List.append_nil, (front_scalar h).2, List.take_length]

/-- The part of a text that one replacement stands for: at the front, where no scalar stands, the
longest part that begins an encoding, or else one byte. -/
structure Subpart (part bs : List UInt8) : Prop where
  initial : part <+: bs
  ne : part ≠ []
  unconvertible : ∀ c, ¬ utf8EncodeChar c <+: bs
  begins : part.length = 1 ∨ Begins part
  longest : ∀ part', part' <+: bs → Begins part' → part'.length ≤ part.length

lemma Subpart.unique {part part' bs : List UInt8} (h : Subpart part bs) (h' : Subpart part' bs) :
    part = part' := by
  have hle : ∀ {p q : List UInt8}, Subpart p bs → Subpart q bs → p.length ≤ q.length := by
    intro p q hp hq
    obtain hone | hbegins := hp.begins
    · rw [hone]
      exact List.length_pos_iff.2 hq.ne
    · exact hq.longest p hp.initial hbegins
  exact (List.prefix_of_prefix_length_le h.initial h'.initial (hle h h')).eq_of_length
    (Nat.le_antisymm (hle h h') (hle h' h))

lemma subpart_cut {b : UInt8} {bs : List UInt8} (h : front b bs = .cut) :
    Subpart (b :: bs) (b :: bs) where
  initial := List.prefix_refl _
  ne := List.cons_ne_nil _ _
  unconvertible c hc := by
    obtain ⟨k, hk⟩ := front_scalar_iff.2 hc
    rw [h] at hk
    cases hk
  begins := .inr (begins_cons.2 (.inl h))
  longest part' h' _ := h'.length_le

/-- Bytes no scalar begins with: all but the last begin one, unless there is but one. -/
lemma tails_invalid {v k n m : Nat} {bs : List UInt8} (h : tails v k n bs = .invalid m) :
    ∃ ts t rest, bs = ts ++ t :: rest ∧ m = k + ts.length ∧ tails v k n ts = .cut ∧
      tails v k n (ts ++ [t]) = .invalid m := by
  induction n generalizing v k bs with
  | zero => cases h
  | succ n ih =>
      cases bs with
      | nil => cases h
      | cons b bs =>
          by_cases hb : Continues b
          · rw [tails_of_continues hb] at h
            obtain ⟨ts, t, rest, rfl, hm, hcut, hinvalid⟩ := ih h
            refine ⟨b :: ts, t, rest, rfl, by rw [List.length_cons]; omega, ?_, ?_⟩
            · rwa [tails_of_continues hb]
            · rwa [List.cons_append, tails_of_continues hb]
          · rw [tails, if_neg hb] at h
            cases h
            exact ⟨[], b, bs, rfl, rfl, rfl, if_neg hb⟩

lemma front_invalid {b : UInt8} {bs : List UInt8} {k : Nat} (h : front b bs = .invalid k) :
    (k = 0 ∧ ∀ more, front b more = .invalid 0) ∨
      ∃ ts t rest, bs = ts ++ t :: rest ∧ k = ts.length ∧ front b ts = .cut ∧
        front b (ts ++ [t]) = .invalid k := by
  by_cases h₀ : width b = 0
  · have hall : ∀ more, front b more = .invalid 0 := by
      intro more
      unfold front
      rw [if_pos h₀]
    rw [hall] at h
    cases h
    exact .inl ⟨rfl, hall⟩
  · by_cases h₁ : width b = 1
    · rw [front_of_width_one h₁] at h
      cases h
    · have hnil : front b [] = .cut := by
        unfold front
        rw [if_neg h₀, if_neg h₁]
      cases bs with
      | nil =>
          rw [hnil] at h
          cases h
      | cons b' bs =>
          right
          by_cases hsecond : Second b b'
          · rw [front_of_second (by omega) hsecond] at h
            obtain ⟨ts, t, rest, rfl, hk, hcut, hinvalid⟩ := tails_invalid h
            refine ⟨b' :: ts, t, rest, rfl, by rw [List.length_cons]; omega, ?_, ?_⟩
            · rwa [front_of_second (by omega) hsecond]
            · rwa [List.cons_append, front_of_second (by omega) hsecond]
          · have hsingle : ∀ more, front b (b' :: more) = .invalid 0 := by
              intro more
              unfold front
              rw [if_neg h₀, if_neg h₁]
              exact if_neg hsecond
            rw [hsingle] at h
            cases h
            exact ⟨[], b', bs, rfl, rfl, hnil, hsingle []⟩

lemma front_invalid_le {b : UInt8} {bs : List UInt8} {k : Nat} (h : front b bs = .invalid k) :
    k ≤ bs.length := by
  obtain ⟨rfl, -⟩ | ⟨ts, t, rest, rfl, rfl, -, -⟩ := front_invalid h
  · exact Nat.zero_le _
  · rw [List.length_append]
    omega

/-- What is replaced when no scalar stands at the front. -/
lemma subpart_invalid {b : UInt8} {bs : List UInt8} {k : Nat} (h : front b bs = .invalid k) :
    Subpart (b :: bs.take k) (b :: bs) where
  initial := List.cons_prefix_cons.2 ⟨rfl, List.take_prefix k bs⟩
  ne := List.cons_ne_nil _ _
  unconvertible c hc := by
    obtain ⟨m, hm⟩ := front_scalar_iff.2 hc
    rw [h] at hm
    cases hm
  begins := by
    obtain ⟨rfl, -⟩ | ⟨ts, t, rest, rfl, rfl, hcut, -⟩ := front_invalid h
    · exact .inl rfl
    · rw [List.take_left]
      exact .inr (begins_cons.2 (.inl hcut))
  longest := by
    rintro (_ | ⟨b', part⟩) hpart hbegins
    · exact Nat.zero_le _
    obtain ⟨rfl, htail⟩ := List.cons_prefix_cons.1 hpart
    have hle : part.length ≤ k := by
      by_contra hgt
      have hinvalid : ∃ m, front b' part = .invalid m := by
        obtain ⟨-, hall⟩ | ⟨ts, t, rest, rfl, rfl, -, hinvalid⟩ := front_invalid h
        · exact ⟨0, hall part⟩
        · have hread : ts ++ [t] <+: part := by
            refine List.prefix_of_prefix_length_le ⟨rest, by simp⟩ htail ?_
            rw [List.length_append]
            exact Nat.lt_of_not_le hgt
          obtain ⟨more, rfl⟩ := hread
          refine ⟨_, (front_append ?_ more).trans hinvalid⟩
          rw [hinvalid]
          intro hcut
          cases hcut
      obtain ⟨m, hm⟩ := hinvalid
      obtain hcut | ⟨c, hc⟩ := begins_cons.1 hbegins
      · rw [hm] at hcut
        cases hcut
      · rw [hm] at hc
        cases hc
    rw [List.length_cons, List.length_cons, List.length_take, Nat.min_eq_left (front_invalid_le h)]
    exact Nat.succ_le_succ hle

/-! ## Whole texts -/

/-- What `from_utf8` says of a text: the characters of its valid bytes, how many these are, and where
they are not the whole text, the `error_len`. -/
structure Checked where
  text : List Char
  validUpTo : Nat
  error : Option (Option Nat)

/-- What an error of `from_utf8` reads as. -/
def Checked.message (r : Checked) : String :=
  match r.error with
  | some (some n) => "invalid utf-8 sequence of " ++ toString n ++ " bytes from index " ++
      toString r.validUpTo
  | _ => "incomplete utf-8 byte sequence from index " ++ toString r.validUpTo

/-- `from_utf8`. -/
def fromUtf8 : List UInt8 → Checked
  | [] => ⟨[], 0, none⟩
  | b :: bs =>
      match front b bs with
      | .scalar c more =>
          let rest := fromUtf8 (bs.drop more)
          ⟨c :: rest.text, more + 1 + rest.validUpTo, rest.error⟩
      | .invalid more => ⟨[], 0, some (some (more + 1))⟩
      | .cut => ⟨[], 0, some none⟩
termination_by bs => bs.length
decreasing_by
  rw [List.length_drop, List.length_cons]
  omega

/-- A text read to its end, or to the beginning of a scalar it ends within: the scalars, a `none` for
each replacement, and the bytes left over. -/
def scan : List UInt8 → List (Option Char) × List UInt8
  | [] => ([], [])
  | b :: bs =>
      match front b bs with
      | .scalar c more => (scan (bs.drop more)).map (some c :: ·) id
      | .invalid more => (scan (bs.drop more)).map (none :: ·) id
      | .cut => ([], b :: bs)
termination_by bs => bs.length
decreasing_by
  all_goals
    rw [List.length_drop, List.length_cons]
    omega

/-- The decoding of a text with replacements, a `none` for each. -/
def lossy (bs : List UInt8) : List (Option Char) :=
  if (scan bs).2 = [] then (scan bs).1 else (scan bs).1 ++ [none]

/-- A text and its decoding: one replacement for each maximal invalid part. -/
inductive Replaces : List UInt8 → List (Option Char) → Prop
  | nil : Replaces [] []
  | scalar (c : Char) {bs items} : Replaces bs items →
      Replaces (utf8EncodeChar c ++ bs) (some c :: items)
  | invalid {part bs items} : Subpart part (part ++ bs) → Replaces bs items →
      Replaces (part ++ bs) (none :: items)

lemma scan_scalar {b : UInt8} {bs : List UInt8} {c : Char} {k : Nat}
    (h : front b bs = .scalar c k) :
    scan (b :: bs) = (some c :: (scan (bs.drop k)).1, (scan (bs.drop k)).2) := by
  rw [scan, h]
  rfl

lemma scan_invalid {b : UInt8} {bs : List UInt8} {k : Nat} (h : front b bs = .invalid k) :
    scan (b :: bs) = (none :: (scan (bs.drop k)).1, (scan (bs.drop k)).2) := by
  rw [scan, h]
  rfl

lemma scan_cut {b : UInt8} {bs : List UInt8} (h : front b bs = .cut) :
    scan (b :: bs) = ([], b :: bs) := by
  rw [scan, h]

/-- What is left over is nothing, or the beginning of a scalar. -/
lemma scan_rest (bs : List UInt8) :
    (scan bs).2 = [] ∨ ∃ b ts, (scan bs).2 = b :: ts ∧ front b ts = .cut := by
  induction bs using scan.induct with
  | case1 => exact .inl (by rw [scan])
  | case2 b bs c k h ih => rwa [scan_scalar h]
  | case3 b bs k h ih => rwa [scan_invalid h]
  | case4 b bs h =>
      rw [scan_cut h]
      exact .inr ⟨b, bs, rfl, h⟩

lemma scan_rest_length (bs : List UInt8) : (scan bs).2.length ≤ 3 := by
  obtain h | ⟨b, ts, h, hcut⟩ := scan_rest bs
  · rw [h]
    exact Nat.zero_le _
  · rw [h, List.length_cons]
    exact (front_complete hcut).1

/-- A text read in two pieces is read as a whole. -/
lemma scan_append (bs more : List UInt8) :
    scan (bs ++ more) = ((scan bs).1 ++ (scan ((scan bs).2 ++ more)).1,
      (scan ((scan bs).2 ++ more)).2) := by
  induction bs using scan.induct with
  | case1 => rw [scan, List.nil_append, List.nil_append]
  | case2 b bs c k h ih =>
      have happend := (front_append (by rw [h]; exact Front.noConfusion) more).trans h
      rw [List.cons_append, scan_scalar happend, scan_scalar h,
        List.drop_append_of_le_length (front_scalar h).1, ih, List.cons_append]
  | case3 b bs k h ih =>
      have happend := (front_append (by rw [h]; exact Front.noConfusion) more).trans h
      rw [List.cons_append, scan_invalid happend, scan_invalid h,
        List.drop_append_of_le_length (front_invalid_le h), ih, List.cons_append]
  | case4 b bs h => rw [scan_cut h, List.nil_append]

lemma lossy_scalar {b : UInt8} {bs : List UInt8} {c : Char} {k : Nat}
    (h : front b bs = .scalar c k) : lossy (b :: bs) = some c :: lossy (bs.drop k) := by
  unfold lossy
  rw [scan_scalar h]
  split_ifs
  · rfl
  · rfl

lemma lossy_invalid {b : UInt8} {bs : List UInt8} {k : Nat} (h : front b bs = .invalid k) :
    lossy (b :: bs) = none :: lossy (bs.drop k) := by
  unfold lossy
  rw [scan_invalid h]
  split_ifs
  · rfl
  · rfl

lemma lossy_cut {b : UInt8} {bs : List UInt8} (h : front b bs = .cut) : lossy (b :: bs) = [none] := by
  unfold lossy
  rw [scan_cut h]
  rfl

lemma lossy_nil : lossy [] = [] := by
  unfold lossy
  rw [scan]
  rfl

lemma replaces_lossy (bs : List UInt8) : Replaces bs (lossy bs) := by
  induction bs using scan.induct with
  | case1 =>
      rw [lossy_nil]
      exact .nil
  | case2 b bs c k h ih =>
      rw [lossy_scalar h]
      have hbytes : b :: bs = utf8EncodeChar c ++ bs.drop k := by
        rw [(front_scalar h).2, List.cons_append, List.take_append_drop]
      rw [hbytes]
      exact .scalar c ih
  | case3 b bs k h ih =>
      rw [lossy_invalid h]
      have hbytes : b :: bs = b :: bs.take k ++ bs.drop k := by
        rw [List.cons_append, List.take_append_drop]
      rw [hbytes]
      exact .invalid (hbytes ▸ subpart_invalid h) ih
  | case4 b bs h =>
      rw [lossy_cut h]
      have hbytes : b :: bs = b :: bs ++ [] := (List.append_nil _).symm
      rw [hbytes]
      exact .invalid (by rw [List.append_nil]; exact subpart_cut h) .nil

/-- **A text has one decoding.** -/
lemma replaces_iff {bs : List UInt8} {items : List (Option Char)} :
    Replaces bs items ↔ items = lossy bs := by
  constructor
  · intro h
    induction h with
    | nil => exact lossy_nil.symm
    | @scalar c bs items _ ih =>
        obtain ⟨b, rest, heq, hfront⟩ := front_encodeChar c bs
        rw [heq, List.cons_append, lossy_scalar hfront, List.drop_left, ih]
    | @invalid part bs items hpart _ ih =>
        obtain ⟨b, ts, heq⟩ := List.exists_cons_of_ne_nil
          (List.append_ne_nil_of_left_ne_nil hpart.ne bs)
        rw [heq] at hpart ⊢
        cases hfront : front b ts with
        | scalar c k => exact absurd (front_scalar_iff.1 ⟨k, hfront⟩) (hpart.unconvertible c)
        | invalid k =>
            rw [lossy_invalid hfront, ih]
            have hsame := hpart.unique (subpart_invalid hfront)
            have hbytes : part ++ bs = b :: ts.take k ++ ts.drop k := by
              rw [heq, List.cons_append, List.take_append_drop]
            rw [hsame] at hbytes
            rw [List.append_cancel_left hbytes]
        | cut =>
            rw [lossy_cut hfront, ih]
            have hsame := hpart.unique (subpart_cut hfront)
            rw [hsame] at heq
            rw [List.append_right_eq_self.1 heq, lossy_nil]
  · rintro rfl
    exact replaces_lossy bs

/-! ## Texts that are accepted -/

lemma fromUtf8_scalar {b : UInt8} {bs : List UInt8} {c : Char} {k : Nat}
    (h : front b bs = .scalar c k) : fromUtf8 (b :: bs) = ⟨c :: (fromUtf8 (bs.drop k)).text,
      k + 1 + (fromUtf8 (bs.drop k)).validUpTo, (fromUtf8 (bs.drop k)).error⟩ := by
  rw [fromUtf8, h]

lemma fromUtf8_invalid {b : UInt8} {bs : List UInt8} {k : Nat} (h : front b bs = .invalid k) :
    fromUtf8 (b :: bs) = ⟨[], 0, some (some (k + 1))⟩ := by
  rw [fromUtf8, h]

lemma fromUtf8_cut {b : UInt8} {bs : List UInt8} (h : front b bs = .cut) :
    fromUtf8 (b :: bs) = ⟨[], 0, some none⟩ := by
  rw [fromUtf8, h]

lemma fromUtf8_nil : fromUtf8 [] = ⟨[], 0, none⟩ := by rw [fromUtf8]

lemma fromUtf8_encode (cs : List Char) : fromUtf8 (encode cs) = ⟨cs, (encode cs).length, none⟩ := by
  induction cs with
  | nil => exact fromUtf8_nil
  | cons c cs ih =>
      obtain ⟨b, rest, heq, hfront⟩ := front_encodeChar c (encode cs)
      rw [encode_cons, heq, List.cons_append, fromUtf8_scalar hfront, List.drop_left, ih,
        List.length_cons, List.length_append, Nat.add_right_comm]

/-- The valid bytes are the encoding of their characters. -/
lemma fromUtf8_text (bs : List UInt8) :
    (fromUtf8 bs).validUpTo ≤ bs.length ∧
      encode (fromUtf8 bs).text = bs.take (fromUtf8 bs).validUpTo := by
  induction bs using scan.induct with
  | case1 =>
      rw [fromUtf8_nil]
      exact ⟨Nat.le_refl _, rfl⟩
  | case2 b bs c k h ih =>
      have hk := front_scalar h
      rw [fromUtf8_scalar h]
      rw [List.length_drop] at ih
      refine ⟨by simp only [List.length_cons]; omega, ?_⟩
      rw [encode_cons, ih.2, hk.2, Nat.add_right_comm, List.take_succ_cons, List.take_add,
        List.cons_append]
  | case3 b bs k h _ =>
      rw [fromUtf8_invalid h]
      exact ⟨Nat.zero_le _, rfl⟩
  | case4 b bs h =>
      rw [fromUtf8_cut h]
      exact ⟨Nat.zero_le _, rfl⟩

lemma fromUtf8_none {bs : List UInt8} (h : (fromUtf8 bs).error = none) :
    (fromUtf8 bs).validUpTo = bs.length := by
  induction bs using scan.induct with
  | case1 => rw [fromUtf8_nil, List.length_nil]
  | case2 b bs c k hfront ih =>
      have hk := (front_scalar hfront).1
      rw [fromUtf8_scalar hfront] at h ⊢
      have := ih h
      rw [List.length_drop] at this
      simp only [List.length_cons]
      omega
  | case3 b bs k hfront _ =>
      rw [fromUtf8_invalid hfront] at h
      cases h
  | case4 b bs hfront =>
      rw [fromUtf8_cut hfront] at h
      cases h

/-- **A text is accepted exactly when it is the encoding of characters.** -/
lemma fromUtf8_ok {bs : List UInt8} :
    (fromUtf8 bs).error = none ↔ encode (fromUtf8 bs).text = bs := by
  constructor
  · intro h
    rw [(fromUtf8_text bs).2, fromUtf8_none h, List.take_length]
  · intro h
    rw [← h, fromUtf8_encode]

lemma encode_injective {cs cs' : List Char} (h : encode cs = encode cs') : cs = cs' := by
  have heq := congrArg Checked.text (fromUtf8_encode cs)
  rw [h, fromUtf8_encode] at heq
  exact heq.symm

lemma fromUtf8_ok_iff {bs : List UInt8} :
    (fromUtf8 bs).error = none ↔ ∃ cs, bs = encode cs := by
  constructor
  · exact fun h => ⟨_, (fromUtf8_ok.1 h).symm⟩
  · rintro ⟨cs, rfl⟩
    rw [fromUtf8_encode]

lemma front_scalar_width {b : UInt8} {bs : List UInt8} {c : Char} {k : Nat}
    (h : front b bs = .scalar c k) : k + 1 = width b := by
  by_cases h₁ : width b = 1
  · rw [front_of_width_one h₁] at h
    cases h
    exact h₁.symm
  · unfold front at h
    split_ifs at h with h₀
    cases bs with
    | nil => cases h
    | cons b' bs =>
        simp only at h
        split_ifs at h with hsecond
        have := (tails_scalar h).1
        omega

/-- A text is accepted when a scalar is at its front and the rest is accepted. -/
lemma fromUtf8_cons {b : UInt8} {bs : List UInt8} :
    (fromUtf8 (b :: bs)).error = none ↔
      ∃ c k, front b bs = .scalar c k ∧ (fromUtf8 (bs.drop k)).error = none := by
  constructor
  · intro h
    cases hfront : front b bs with
    | scalar c k =>
        rw [fromUtf8_scalar hfront] at h
        exact ⟨c, k, rfl, h⟩
    | invalid k =>
        rw [fromUtf8_invalid hfront] at h
        cases h
    | cut =>
        rw [fromUtf8_cut hfront] at h
        cases h
  · rintro ⟨c, k, hfront, h⟩
    rw [fromUtf8_scalar hfront]
    exact h

/-- The valid bytes are accepted by themselves. -/
lemma fromUtf8_take (bs : List UInt8) : fromUtf8 (bs.take (fromUtf8 bs).validUpTo) =
    ⟨(fromUtf8 bs).text, (fromUtf8 bs).validUpTo, none⟩ := by
  obtain ⟨hle, htext⟩ := fromUtf8_text bs
  rw [← htext, fromUtf8_encode, htext, List.length_take, Nat.min_eq_left hle]

/-- How the loop over a text goes on from what `from_utf8` says of it. -/
lemma scan_fromUtf8 (bs : List UInt8) :
    match (fromUtf8 bs).error with
    | none => scan bs = ((fromUtf8 bs).text.map some, [])
    | some none => bs.drop (fromUtf8 bs).validUpTo ≠ [] ∧
        scan bs = ((fromUtf8 bs).text.map some, bs.drop (fromUtf8 bs).validUpTo)
    | some (some n) => 1 ≤ n ∧ bs ≠ [] ∧
        scan bs = ((fromUtf8 bs).text.map some ++
          none :: (scan (bs.drop ((fromUtf8 bs).validUpTo + n))).1,
          (scan (bs.drop ((fromUtf8 bs).validUpTo + n))).2) := by
  induction bs using scan.induct with
  | case1 =>
      rw [fromUtf8_nil, scan]
      rfl
  | case2 b bs c k h ih =>
      have hdrop : ∀ m, (b :: bs).drop (k + 1 + m) = (bs.drop k).drop m := by
        intro m
        rw [Nat.add_right_comm, List.drop_succ_cons, List.drop_drop]
      rw [fromUtf8_scalar h, scan_scalar h]
      cases herror : (fromUtf8 (bs.drop k)).error with
      | none =>
          rw [herror] at ih
          simp only [ih, List.map_cons]
      | some error =>
          cases error with
          | none =>
              rw [herror] at ih
              simp only [hdrop, ih.2, List.map_cons]
              exact ⟨ih.1, trivial⟩
          | some n =>
              rw [herror] at ih
              simp only [Nat.add_assoc (k + 1), hdrop]
              rw [ih.2.2]
              exact ⟨ih.1, List.cons_ne_nil _ _, rfl⟩
  | case3 b bs k h _ =>
      rw [fromUtf8_invalid h, scan_invalid h]
      refine ⟨Nat.le_add_left 1 k, List.cons_ne_nil _ _, ?_⟩
      rw [Nat.zero_add, List.drop_succ_cons]
      rfl
  | case4 b bs h =>
      rw [fromUtf8_cut h, scan_cut h]
      exact ⟨List.cons_ne_nil _ _, rfl⟩

end Utf8

end Rnx
