import Rnx.Jupyter.Capture
import Rnx.Lib.Utf8

/-!
# The text of a stream

`Text` of `streams.rs`.  The kernel publishes the bytes of a stream as text, chunk by chunk; a chunk
may end within a scalar, so the beginning of one is kept for the next chunk.  However the bytes are
cut into chunks, the published text is that of the whole.

* `decode_eq` — one call publishes what is read to the end of a chunk and keeps what is left over;
* `incremental_decoding` — the calls on a stream publish the decoding of its bytes.
-/

namespace Rnx

open Utf8

namespace Jupyter

/-- `Text`. -/
structure Text where
  pending : Bytes
  replaced : Bool
deriving DecidableEq, Repr

namespace Text

/-- `Text::default`. -/
def new : Text := ⟨[], false⟩

/-- The replacement character. -/
def replacement : Char := '\ufffd'

/-- What the loop of `decode` did: the text, whether it replaced, and the bytes it did not use. -/
structure Decoded where
  out : List Char
  replaced : Bool
  rest : Bytes
deriving DecidableEq, Repr

lemma drop_lt {bs : Bytes} {m n : Nat} (h : (fromUtf8 bs).error = some (some n)) :
    (bs.drop (m + n)).length < bs.length := by
  have hscan := scan_fromUtf8 bs
  rw [h] at hscan
  have hpos := List.length_pos_iff.2 hscan.2.1
  rw [List.length_drop]
  omega

/-- The text of the valid bytes; nothing where the `unwrap` would panic. -/
def validText (bs : Bytes) : Option (List Char) :=
  let valid := fromUtf8 (bs.take (fromUtf8 bs).validUpTo)
  if valid.error = none then some valid.text else none

/-- The loop of `decode`, over the bytes not used yet. -/
def loop (last : Bool) (bs : Bytes) : Option Decoded :=
  match _h : (fromUtf8 bs).error with
  | none => some ⟨(fromUtf8 bs).text, false, []⟩
  | some (some n) => do
      let text ← validText bs
      let d ← loop last (bs.drop ((fromUtf8 bs).validUpTo + n))
      some ⟨text ++ replacement :: d.out, true, d.rest⟩
  | some none => do
      let text ← validText bs
      if last = true then some ⟨text ++ [replacement], true, []⟩
      else some ⟨text, false, bs.drop (fromUtf8 bs).validUpTo⟩
termination_by bs.length
decreasing_by exact drop_lt _h

/-- `decode`. -/
def decode (t : Text) (bytes : Bytes) (last : Bool) : Option (List Char × Text) :=
  (loop last (t.pending ++ bytes)).map fun d => (d.out, ⟨d.rest, t.replaced || d.replaced⟩)

/-- The calls of `decode` on the pieces of a stream but the last. -/
def decodePieces (t : Text) : List Bytes → Option (List Char × Text)
  | [] => some ([], t)
  | bytes :: pieces => do
      let (out, t) ← t.decode bytes false
      let (outs, t) ← decodePieces t pieces
      pure (out ++ outs, t)

/-! ## One call -/

/-- The text of a decoding. -/
def render (items : List (Option Char)) : List Char := items.map (·.getD replacement)

/-- The items and the bytes a call leaves: at the last call a scalar that is cut is replaced. -/
def settled (last : Bool) (bs : Bytes) : List (Option Char) × Bytes :=
  if last = true then (lossy bs, []) else scan bs

lemma render_some (cs : List Char) : render (cs.map some) = cs := by
  unfold render
  rw [List.map_map]
  exact List.map_id cs

lemma render_append (items items' : List (Option Char)) :
    render (items ++ items') = render items ++ render items' := List.map_append

lemma contains_some (cs : List Char) : (cs.map some).contains none = false := by
  rw [List.contains_eq_mem, decide_eq_false_iff_not]
  intro h
  obtain ⟨c, -, hc⟩ := List.mem_map.1 h
  cases hc

lemma validText_eq (bs : Bytes) : validText bs = some (fromUtf8 bs).text := by
  unfold validText
  rw [fromUtf8_take]
  rfl

/-- What the loop makes of the bytes. -/
def outcome (last : Bool) (bs : Bytes) : Decoded :=
  ⟨render (settled last bs).1, (settled last bs).1.contains none, (settled last bs).2⟩

lemma settled_whole {last : Bool} {bs : Bytes} {items : List (Option Char)}
    (h : scan bs = (items, [])) : settled last bs = (items, []) := by
  unfold settled lossy
  rw [h]
  exact ite_self _

lemma settled_more {last : Bool} {bs bs' : Bytes} {items : List (Option Char)}
    (h : scan bs = (items ++ none :: (scan bs').1, (scan bs').2)) :
    settled last bs = (items ++ none :: (settled last bs').1, (settled last bs').2) := by
  unfold settled lossy
  rw [h]
  split_ifs
  · rfl
  · simp only [List.append_assoc, List.cons_append]
  · rfl

lemma settled_rest {last : Bool} {bs bs' : Bytes} {items : List (Option Char)} (hne : bs' ≠ [])
    (h : scan bs = (items, bs')) :
    settled last bs = if last = true then (items ++ [none], []) else (items, bs') := by
  unfold settled lossy
  rw [h, if_neg hne]

lemma loop_eq (last : Bool) (bs : Bytes) : loop last bs = some (outcome last bs) := by
  induction h : bs.length using Nat.strongRecOn generalizing bs with
  | _ n ih =>
      have hscan := scan_fromUtf8 bs
      rw [loop]
      unfold outcome
      split
      · next herror =>
          rw [herror] at hscan
          rw [settled_whole hscan, render_some, contains_some]
      · next k herror =>
          rw [herror] at hscan
          rw [validText_eq, ih _ (h ▸ drop_lt herror) _ rfl, settled_more hscan.2.2]
          simp only [Option.bind_eq_bind, Option.bind_some, render_append, render_some,
            List.contains_append, List.contains_cons]
          simp [render, outcome]
      · next herror =>
          rw [herror] at hscan
          rw [validText_eq, settled_rest hscan.1 hscan.2]
          cases last with
          | true =>
              simp only [if_true, render_append, render_some, List.contains_append]
              simp [render]
          | false =>
              simp only [if_false, Bool.false_eq_true, render_some, contains_some]
              rfl

/-- **One call.**  It publishes what is read to the end of the chunk, and keeps the rest. -/
lemma decode_eq (t : Text) (bytes : Bytes) (last : Bool) :
    t.decode bytes last = some (render (settled last (t.pending ++ bytes)).1,
      ⟨(settled last (t.pending ++ bytes)).2,
        t.replaced || (settled last (t.pending ++ bytes)).1.contains none⟩) := by
  unfold decode
  rw [loop_eq]
  rfl

/-! ## The calls on a stream -/

/-- The state of a text after bytes were read with the items: what it keeps is what is left of them,
and it says whether one of the items is a replacement. -/
structure Reads (bs : Bytes) (items : List (Option Char)) (t : Text) : Prop where
  scan : Utf8.scan bs = (items, t.pending)
  replaced : t.replaced = items.contains none

lemma Reads.new : Reads [] [] new := ⟨by rw [Utf8.scan]; rfl, rfl⟩

/-- A call before the last. -/
lemma Reads.decode {bs : Bytes} {items : List (Option Char)} {t : Text}
    (h : Reads bs items t) (bytes : Bytes) : ∃ items' t', t.decode bytes false = some (render items', t') ∧
      Reads (bs ++ bytes) (items ++ items') t' := by
  refine ⟨_, _, decode_eq t bytes false, ?_, ?_⟩
  · rw [scan_append, h.scan]
    rfl
  · rw [h.replaced, List.contains_append]

/-- The calls before the last. -/
lemma Reads.decodePieces {bs : Bytes} {items : List (Option Char)} {t : Text}
    (h : Reads bs items t) (pieces : List Bytes) :
    ∃ items' t', t.decodePieces pieces = some (render items', t') ∧
      Reads (bs ++ pieces.flatten) (items ++ items') t' := by
  induction pieces generalizing bs items t with
  | nil =>
      refine ⟨[], t, rfl, ?_⟩
      rw [List.flatten_nil, List.append_nil, List.append_nil]
      exact h
  | cons bytes pieces ih =>
      obtain ⟨items₁, t₁, hdecode, h₁⟩ := h.decode bytes
      obtain ⟨items₂, t₂, hpieces, h₂⟩ := ih h₁
      refine ⟨items₁ ++ items₂, t₂, ?_, ?_⟩
      · rw [Text.decodePieces, hdecode, Option.bind_eq_bind, Option.bind_some]
        simp only [hpieces, render_append, Option.bind_some]
        rfl
      · rw [List.flatten_cons, ← List.append_assoc, ← List.append_assoc]
        exact h₂

/-- The last call. -/
lemma Reads.last {bs : Bytes} {items : List (Option Char)} {t : Text} (h : Reads bs items t)
    (bytes : Bytes) :
    ∃ items', t.decode bytes true = some (render items', ⟨[], (items ++ items').contains none⟩) ∧
      lossy (bs ++ bytes) = items ++ items' := by
  refine ⟨lossy (t.pending ++ bytes), ?_, ?_⟩
  · rw [decode_eq, h.replaced, List.contains_append]
    rfl
  · unfold lossy
    rw [scan_append, h.scan]
    split_ifs
    · rfl
    · rw [List.append_assoc]

/-- **Incremental decoding.**  However a stream is cut into pieces, the calls on them publish the
decoding of the whole, one replacement for each maximal invalid part; between calls at most three
bytes are kept, and `replaced` says whether a replacement was published. -/
theorem incremental_decoding (pieces : List Bytes) (final : Bytes) :
    ∃ items sofar outs out t t',
      (∀ items', Replaces (pieces.flatten ++ final) items' ↔ items' = items) ∧
      new.decodePieces pieces = some (outs, t) ∧ t.decode final true = some (out, t') ∧
      outs ++ out = render items ∧ sofar <+: items ∧ outs = render sofar ∧
      t.pending.length ≤ 3 ∧ t'.pending = [] ∧
      (t.replaced = true ↔ none ∈ sofar) ∧ (t'.replaced = true ↔ none ∈ items) := by
  obtain ⟨sofar, t, hpieces, h⟩ := Reads.new.decodePieces pieces
  rw [List.nil_append, List.nil_append] at h
  obtain ⟨rest, hlast, hlossy⟩ := h.last final
  refine ⟨sofar ++ rest, sofar, render sofar, render rest, t, _, ?_, hpieces, hlast,
    (render_append _ _).symm, List.prefix_append _ _, rfl, ?_, rfl, ?_, ?_⟩
  · intro items'
    rw [replaces_iff, hlossy]
  · have := scan_rest_length pieces.flatten
    rwa [h.scan] at this
  · rw [h.replaced, List.contains_iff_mem]
  · rw [List.contains_iff_mem]

end Text

end Jupyter

end Rnx
