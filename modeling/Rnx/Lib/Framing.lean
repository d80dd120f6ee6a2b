import Rnx.Lib.BigEndian

/-!
# Self-delimiting encodings

An encoding is self-delimiting when what follows a code word can be told from the word: two words
with something after them agree only if the words and what follows do.  Such encodings are put
together one after another, and a list of words that are not empty needs neither a count nor a
terminator.
-/

namespace Rnx

/-- An encoding of the values with a property whose words end where they end. -/
def Delimited {α β : Type} (valid : α → Prop) (encode : α → List β) : Prop :=
  ∀ a b rest rest', valid a → valid b → encode a ++ rest = encode b ++ rest' → a = b ∧ rest = rest'

namespace Delimited

variable {α β γ : Type} {valid : α → Prop} {encode : α → List γ} {valid' : β → Prop}
  {encode' : β → List γ}

/-- A value in two parts, the second encoded as the first says. -/
lemma append {δ : Type} (first : δ → α) (second : δ → β) (validPair : δ → Prop)
    (h : Delimited valid encode) (h' : Delimited valid' encode')
    (hvalid : ∀ d, validPair d → valid (first d) ∧ valid' (second d))
    (hparts : ∀ d e, first d = first e → second d = second e → d = e) :
    Delimited validPair fun d => encode (first d) ++ encode' (second d) := by
  intro d e rest rest' hd he heq
  rw [List.append_assoc, List.append_assoc] at heq
  obtain ⟨hfirst, heq⟩ := h _ _ _ _ (hvalid d hd).1 (hvalid e he).1 heq
  obtain ⟨hsecond, hrest⟩ := h' _ _ _ _ (hvalid d hd).2 (hvalid e he).2 heq
  exact ⟨hparts d e hfirst hsecond, hrest⟩

/-- Bytes after their number. -/
lemma lengthPrefixed (width : Nat) : Delimited (fun bs : List UInt8 => bs.length < 256 ^ width)
    fun bs => BigEndian.toBytes width bs.length ++ bs := by
  intro a b rest rest' ha hb h
  rw [List.append_assoc, List.append_assoc] at h
  obtain ⟨hlength, h⟩ := List.append_inj h
    (by rw [BigEndian.length_toBytes, BigEndian.length_toBytes])
  exact List.append_inj h (BigEndian.toBytes_inj ha hb hlength)

/-- Words that are put together and go on begin with the same words. -/
lemma flatMap_prefix (h : Delimited valid encode) (hne : ∀ a, valid a → encode a ≠ [])
    {xs ys : List α} {rest : List γ} (hxs : ∀ x ∈ xs, valid x) (hys : ∀ y ∈ ys, valid y)
    (heq : xs.flatMap encode ++ rest = ys.flatMap encode) :
    ∃ zs, ys = xs ++ zs ∧ rest = zs.flatMap encode := by
  induction xs generalizing ys with
  | nil => exact ⟨ys, rfl, heq⟩
  | cons x xs ih =>
    obtain ⟨hx, hxs⟩ := List.forall_mem_cons.1 hxs
    rw [List.flatMap_cons, List.append_assoc] at heq
    cases ys with
    | nil => exact absurd (List.append_eq_nil_iff.1 heq).1 (hne x hx)
    | cons y ys =>
      obtain ⟨hy, hmore⟩ := List.forall_mem_cons.1 hys
      rw [List.flatMap_cons] at heq
      obtain ⟨rfl, htail⟩ := h _ _ _ _ hx hy heq
      obtain ⟨zs, rfl, hrest⟩ := ih hxs hmore htail
      exact ⟨zs, rfl, hrest⟩

end Delimited

end Rnx
