import Mathlib.Data.List.Basic
import Mathlib.Tactic.Common

/-!
# Hexadecimal digits

Bytes written as two lower case digits each, and read from digits of either case.
-/

namespace Rnx

namespace Hex

/-- The value of a digit. -/
def value (c : Char) : Option Nat :=
  if '0' ≤ c ∧ c ≤ '9' then some (c.toNat - 48)
  else if 'a' ≤ c ∧ c ≤ 'f' then some (c.toNat - 87)
  else if 'A' ≤ c ∧ c ≤ 'F' then some (c.toNat - 55)
  else none

/-- The digits of bytes. -/
def encode (bs : List UInt8) : List Char :=
  bs.flatMap fun b => [Nat.digitChar (b.toNat / 16), Nat.digitChar (b.toNat % 16)]

/-- The bytes that pairs of digits stand for. -/
def decode : List Char → Option (List UInt8)
  | [] => some []
  | [_] => none
  | c :: d :: rest => do
    let high ← value c
    let low ← value d
    let bs ← decode rest
    pure (UInt8.ofNat (high * 16 + low) :: bs)

/-- The digits of a value, and their codes. -/
lemma value_cases {c : Char} {n : Nat} (h : value c = some n) : n < 16 ∧
    (n < 10 ∧ c.toNat = n + 48 ∨ 10 ≤ n ∧ (c.toNat = n + 87 ∨ c.toNat = n + 55)) := by
  unfold value at h
  split_ifs at h with hdigit hlower hupper
  · have hle : 48 ≤ c.toNat := UInt32.le_iff_toNat_le.1 hdigit.1
    have hge : c.toNat ≤ 57 := UInt32.le_iff_toNat_le.1 hdigit.2
    have hn := Option.some.inj h
    omega
  · have hle : 97 ≤ c.toNat := UInt32.le_iff_toNat_le.1 hlower.1
    have hge : c.toNat ≤ 102 := UInt32.le_iff_toNat_le.1 hlower.2
    have hn := Option.some.inj h
    omega
  · have hle : 65 ≤ c.toNat := UInt32.le_iff_toNat_le.1 hupper.1
    have hge : c.toNat ≤ 70 := UInt32.le_iff_toNat_le.1 hupper.2
    have hn := Option.some.inj h
    omega

/-- A digit of a value is the lower case one in either case. -/
lemma digitChar_value {c : Char} {n : Nat} (h : value c = some n) :
    Nat.digitChar n = c.toLower := by
  have hdecimal : ∀ n < 10, Nat.digitChar n = (Char.ofNat (n + 48)).toLower := by decide
  have hlower : ∀ n < 16, 10 ≤ n → Nat.digitChar n = (Char.ofNat (n + 87)).toLower := by decide
  have hupper : ∀ n < 16, 10 ≤ n → Nat.digitChar n = (Char.ofNat (n + 55)).toLower := by decide
  rw [← Char.ofNat_toNat c]
  obtain ⟨hlt, ⟨hn, hc⟩ | ⟨hn, hc | hc⟩⟩ := value_cases h
  · rw [hc]
    exact hdecimal n hn
  · rw [hc]
    exact hlower n hlt hn
  · rw [hc]
    exact hupper n hlt hn

lemma value_digitChar : ∀ n < 16, value (Nat.digitChar n) = some n := by decide

/-- What is written is read. -/
lemma decode_encoded (bs : List UInt8) : decode (encode bs) = some bs := by
  induction bs with
  | nil => rfl
  | cons b bs ih =>
    have hb := b.toNat_lt
    have hbyte : UInt8.ofNat (b.toNat / 16 * 16 + b.toNat % 16) = b := by
      apply UInt8.toNat_inj.1
      rw [UInt8.toNat_ofNat']
      omega
    show (do
      let high ← value (Nat.digitChar (b.toNat / 16))
      let low ← value (Nat.digitChar (b.toNat % 16))
      let rest ← decode (encode bs)
      pure (UInt8.ofNat (high * 16 + low) :: rest)) = _
    rw [value_digitChar _ (by omega), value_digitChar _ (by omega), ih]
    exact congrArg (fun b => some (b :: bs)) hbyte

end Hex

end Rnx
