import Rnx.Host.Present
import Rnx.Jupyter.Html

/-!
# The two allowlists

The kernel checks the HTML form of a result with its own copy of the scanner of the worker.  They
answer alike, and accept the markup of a few kilobytes that is made of the tags and entities of the
list.
-/

namespace Rnx

namespace Jupyter.Html

open Utf8

variable {c : Char} {inner cs : List Char} {stack : List String} {turns : Nat}

lemma refused_eq (c : Char) :
    (isControl c && c ≠ '\n' || isBidi c) = Host.Present.html.refused c := by
  have hlt : ∀ n : UInt32, decide (c.val < n) = decide (c.toNat < n.toNat) := fun n =>
    decide_eq_decide.2 UInt32.lt_iff_toNat_lt
  have hle : ∀ n : UInt32, decide (c.val ≤ n) = decide (c.toNat ≤ n.toNat) := fun n =>
    decide_eq_decide.2 UInt32.le_iff_toNat_le
  have hge : ∀ n : UInt32, decide (n ≤ c.val) = decide (n.toNat ≤ c.toNat) := fun n =>
    decide_eq_decide.2 UInt32.le_iff_toNat_le
  have heq : ∀ n : UInt32, decide (c.val = n) = decide (c.toNat = n.toNat) := fun n =>
    decide_eq_decide.2 UInt32.toNat_inj.symm
  unfold isControl isBidi
  rw [hlt, hge, hlt, heq, heq, hge, hle, hge, hle]
  rfl

lemma tag_eq (inner : List Char) (stack : List String) :
    tag inner stack = Host.Present.html.tag inner stack := by
  by_cases hslash : inner.head? = some '/'
  · obtain ⟨name, rfl⟩ := List.head?_eq_some_iff.1 hslash
    exact (if_pos hslash).symm
  · have hopening : Host.Present.html.tag inner stack =
        if String.ofList inner ∈ tags ∧ stack.length ≠ depth then some (String.ofList inner :: stack)
        else none := if_neg hslash
    rw [hopening]
    unfold tag
    split
    · next name => exact absurd (List.head?_cons) hslash
    · rfl

/-- The scanner of the kernel takes a turn a character at most. -/
lemma allowedFrom_eq (h : cs.length ≤ turns) :
    allowedFrom turns cs stack = Host.Present.html.scan cs stack := by
  induction turns generalizing cs stack with
  | zero =>
    obtain rfl := List.length_eq_zero_iff.1 (Nat.le_zero.1 h)
    rw [Markup.scan, allowedFrom]
  | succ turns ih =>
    cases cs with
    | nil => rw [Markup.scan, allowedFrom]
    | cons c rest =>
      have hrest : rest.length ≤ turns := Nat.le_of_succ_le_succ h
      rw [Markup.scan, allowedFrom]
      refine if_congr Iff.rfl ?_ (if_congr Iff.rfl rfl (if_congr Iff.rfl ?_ ?_))
      · refine if_congr Iff.rfl ?_ rfl
        have hafter : (rest.dropWhile (· ≠ '>')).tail.length ≤ turns := by
          have hdrop := (List.dropWhile_suffix (fun c => decide (c ≠ '>')) (l := rest)).length_le
          rw [List.length_tail]
          omega
        rw [tag_eq]
        cases Host.Present.html.tag (rest.takeWhile (· ≠ '>')) stack with
        | none => rfl
        | some stack' => exact ih hafter
      · have hentity : Host.Present.html.entities = entities := rfl
        rw [hentity]
        split
        · next entity hfind =>
          have hpos := Markup.entity_length (L := Host.Present.html) (List.mem_of_find?_eq_some hfind)
          rw [String.length_toList] at hpos
          rw [hfind]
          refine ih ?_
          rw [List.length_drop, List.length_cons]
          omega
        · next hfind => rw [hfind]
      · rw [refused_eq]
        exact if_congr Iff.rfl rfl (ih hrest)

/-- **The allowlist accepts exactly its grammar**, in the kernel as in the worker. -/
theorem allowed_iff (html : String) :
    allowed html = Host.Present.htmlAllowed html.toList ∧
    (allowed html = true ↔ html.utf8ByteSize ≤ 16384 ∧ Host.Present.html.Content 8 html.toList) := by
  have hsize : html.utf8ByteSize = (encode html.toList).length := by
    calc html.utf8ByteSize = html.toByteArray.size := rfl
      _ = html.toList.utf8Encode.size := by rw [String.utf8Encode_toList]
      _ = (encode html.toList).length := List.size_toByteArray
  have hscan : allowedFrom html.length html.toList [] = Host.Present.html.scan html.toList [] :=
    allowedFrom_eq (le_of_eq String.length_toList)
  have hsame : allowed html = Host.Present.htmlAllowed html.toList := by
    unfold allowed Host.Present.htmlAllowed
    rw [hscan, hsize]
    rfl
  refine ⟨hsame, ?_⟩
  rw [hsame]
  unfold Host.Present.htmlAllowed
  rw [Bool.and_eq_true, decide_eq_true_eq, Markup.scan_iff, ← hsize]
  rfl

end Jupyter.Html

end Rnx
