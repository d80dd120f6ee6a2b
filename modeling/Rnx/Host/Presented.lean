import Rnx.Host.Present

/-!
# What is presented

Over any pushes the writer of a presenter stays within its limit, and it holds whole tokens and the
marker exactly if one was refused.  The final text of a result stays within its budget, has no
control character but line feeds, and is cut only where the budget makes it.
-/

namespace Rnx

namespace Host.Present

open Utf8 Web

lemma markerFor_le (limit : Nat) : (encode (markerFor limit)).length ≤ limit := by
  unfold markerFor
  split_ifs with hlong hshort
  · exact hlong
  · exact hshort
  · exact Nat.zero_le limit

lemma length_encode_append (a b : List Char) :
    (encode (a ++ b)).length = (encode a).length + (encode b).length := by
  rw [encode_append, List.length_append]

/-! ## The writer over a run of pushes -/

/-- The pushes of a presenter, with their answers. -/
def Output.pushes : List (List Char) → Output → List Bool × Output
  | [], out => ([], out)
  | token :: tokens, out =>
      let first := out.push token
      let rest := first.2.pushes tokens
      (first.1 :: rest.1, rest.2)

/-- What a writer holds once the tokens `kept` were taken and the tokens `refused` were not. -/
structure Wrote (limit : Nat) (kept refused : List (List Char)) (out : Output) : Prop where
  limit_eq : out.limit = limit
  marker_eq : out.marker = markerFor limit
  truncated_iff : out.truncated = true ↔ refused ≠ []
  text_eq : out.text = kept.flatten ++ if refused = [] then [] else markerFor limit
  /-- The marker always has room, so no subtraction of `push` goes below zero. -/
  room : (encode kept.flatten).length + (encode (markerFor limit)).length ≤ limit
  first : ∀ token, refused.head? = some token → limit <
    (encode kept.flatten).length + (encode token).length + (encode (markerFor limit)).length

variable {limit : Nat} {kept refused : List (List Char)} {out : Output} {token : List Char}

lemma wrote_new (limit : Nat) : Wrote limit [] [] (.new limit) where
  limit_eq := rfl
  marker_eq := rfl
  truncated_iff := by simp [Output.new]
  text_eq := by simp [Output.new]
  room := by simpa using markerFor_le limit
  first := by simp

lemma Wrote.length_le (h : Wrote limit kept refused out) : (encode out.text).length ≤ limit := by
  have hroom := h.room
  rw [h.text_eq, length_encode_append]
  split_ifs
  · rw [encode_nil, List.length_nil]
    omega
  · exact hroom

/-- A token is taken if it fits and none was refused before. -/
lemma Wrote.push (h : Wrote limit kept refused out) (token : List Char) :
    ((out.push token).1 = true ∧ refused = [] ∧
        Wrote limit (kept ++ [token]) [] (out.push token).2) ∨
      ((out.push token).1 = false ∧ Wrote limit kept (refused ++ [token]) (out.push token).2) := by
  have hroom := h.room
  unfold Output.push
  split_ifs with htruncated hlong
  · have hne := h.truncated_iff.1 htruncated
    refine .inr ⟨rfl, h.limit_eq, h.marker_eq, by simp [htruncated], ?_, h.room, ?_⟩
    · simpa [hne] using h.text_eq
    · intro t ht
      rw [List.head?_append_of_ne_nil _ hne] at ht
      exact h.first t ht
  · obtain rfl : refused = [] := by
      by_contra hne
      exact htruncated (h.truncated_iff.2 hne)
    have htext : out.text = kept.flatten := by simpa using h.text_eq
    rw [h.limit_eq, h.marker_eq, htext] at hlong
    refine .inr ⟨rfl, h.limit_eq, h.marker_eq, by simp, ?_, h.room, ?_⟩
    · simp [htext, h.marker_eq]
    · intro t ht
      obtain rfl : token = t := by simpa using ht
      omega
  · obtain rfl : refused = [] := by
      by_contra hne
      exact htruncated (h.truncated_iff.2 hne)
    have htext : out.text = kept.flatten := by simpa using h.text_eq
    rw [h.limit_eq, h.marker_eq, htext] at hlong
    refine .inl ⟨rfl, rfl, h.limit_eq, h.marker_eq, by simpa using htruncated, ?_, ?_, by simp⟩
    · simp [htext]
    · rw [List.flatten_append, List.flatten_singleton, length_encode_append]
      omega

/-- After a refusal no token is taken. -/
lemma Wrote.pushes (h : Wrote limit kept refused out) (tokens : List (List Char)) :
    ∃ more less, tokens = more ++ less ∧ (refused ≠ [] → more = []) ∧
      (out.pushes tokens).1 = List.replicate more.length true ++ List.replicate less.length false ∧
      Wrote limit (kept ++ more) (refused ++ less) (out.pushes tokens).2 := by
  induction tokens generalizing kept refused out with
  | nil => exact ⟨[], [], rfl, fun _ => rfl, rfl, by simpa [Output.pushes] using h⟩
  | cons token tokens ih =>
    obtain ⟨hanswer, rfl, hnext⟩ | ⟨hanswer, hnext⟩ := h.push token
    · obtain ⟨more, less, rfl, -, hanswers, hrest⟩ := ih hnext
      refine ⟨token :: more, less, rfl, fun hne => absurd rfl hne, ?_, ?_⟩
      · simp [Output.pushes, hanswer, hanswers, List.replicate_succ]
      · simpa [Output.pushes] using hrest
    · obtain ⟨more, less, rfl, hnone, hanswers, hrest⟩ := ih hnext
      obtain rfl := hnone (by simp)
      rw [List.nil_append] at hanswers
      refine ⟨[], token :: less, rfl, fun _ => rfl, ?_, ?_⟩
      · simp [Output.pushes, hanswer, hanswers, List.replicate_succ]
      · simpa [Output.pushes] using hrest

/-- **The writer of a presenter**: whatever is pushed, the tokens before the first that does not fit
beside the marker are taken whole and all others are refused; the text is what was taken, with the
marker behind it exactly if one was refused, and never longer than the limit. -/
theorem presenter_output (limit : Nat) (tokens : List (List Char)) :
    ∃ kept refused, tokens = kept ++ refused ∧
      ((Output.new limit).pushes tokens).1 =
        List.replicate kept.length true ++ List.replicate refused.length false ∧
      Wrote limit kept refused ((Output.new limit).pushes tokens).2 ∧
      (encode ((Output.new limit).pushes tokens).2.text).length ≤ limit := by
  obtain ⟨kept, refused, htokens, -, hanswers, hwrote⟩ := (wrote_new limit).pushes tokens
  rw [List.nil_append, List.nil_append] at hwrote
  exact ⟨kept, refused, htokens, hanswers, hwrote, hwrote.length_le⟩

/-! ## Escaped text -/

/-- A character as it is shown. -/
def shownChar (c : Char) : List Char :=
  if c ≠ '\n' ∧ isControl c = true then controlEscape c else [c]

/-- `terminal_safe`. -/
def shown (text : List Char) : List Char := text.flatMap shownChar

@[simp] lemma shown_nil : shown [] = [] := rfl

@[simp] lemma shown_cons (c : Char) (text : List Char) :
    shown (c :: text) = shownChar c ++ shown text := rfl

lemma shown_append (a b : List Char) : shown (a ++ b) = shown a ++ shown b := by simp [shown]

/-- No control character. -/
def Safe (text : List Char) : Prop := ∀ c ∈ text, c = '\n' ∨ isControl c = false

instance (text : List Char) : Decidable (Safe text) :=
  List.decidableBAll (fun c => c = '\n' ∨ isControl c = false) text

lemma Safe.append {a b : List Char} (ha : Safe a) (hb : Safe b) : Safe (a ++ b) := by
  intro c hc
  obtain hc | hc := List.mem_append.1 hc
  · exact ha c hc
  · exact hb c hc

lemma safe_toList {l : List Char} (h : Safe l) : Safe (String.ofList l).toList := by
  rwa [String.toList_ofList]

lemma safe_toDigits (n : Nat) : Safe (Nat.toDigits 16 n) := by
  have hdigit : ∀ d < 16, Safe [Nat.digitChar d] := by decide
  induction n using Nat.strongRecOn with
  | ind n ih =>
    rw [Nat.toDigits_eq_if (by decide)]
    split_ifs with hlt
    · exact hdigit n hlt
    · exact (ih _ (by omega)).append (hdigit _ (Nat.mod_lt _ (by decide)))

lemma safe_controlEscape (c : Char) : Safe (controlEscape c) :=
  ((by decide : Safe "\\u\x7b".toList).append (safe_toDigits _)).append (by decide)

lemma safe_shownChar (c : Char) : Safe (shownChar c) := by
  unfold shownChar
  split_ifs with h
  · exact safe_controlEscape c
  · intro d hd
    obtain rfl : d = c := by simpa using hd
    by_contra hne
    simp_all

lemma safe_shown (text : List Char) : Safe (shown text) := by
  intro c hc
  obtain ⟨d, -, hd⟩ := List.mem_flatMap.1 hc
  exact safe_shownChar d c hd

lemma safe_markerFor (limit : Nat) : Safe (markerFor limit) := by
  unfold markerFor
  split_ifs
  · apply safe_toList
    decide
  · decide
  · decide

/-- `pre` is what of a text is shown within a budget: the longest beginning that fits once it is
escaped. -/
structure Cut (budget : Nat) (text pre : List Char) : Prop where
  begins : pre <+: text
  fits : (encode (shown pre)).length ≤ budget
  longest : ∀ c, pre ++ [c] <+: text → budget < (encode (shown (pre ++ [c]))).length

variable {budget : Nat} {text pre : List Char}

/-- A text that fits is not cut. -/
lemma Cut.eq_of_fits (h : Cut budget text pre) (hfits : (encode (shown text)).length ≤ budget) :
    pre = text := by
  obtain ⟨rest, rfl⟩ := h.begins
  cases rest with
  | nil => rw [List.append_nil]
  | cons c rest =>
    have hnext := h.longest c ⟨rest, by simp⟩
    rw [← List.singleton_append, ← List.append_assoc, shown_append, length_encode_append] at hfits
    omega

lemma Cut.lt_iff (h : Cut budget text pre) :
    (encode pre).length < (encode text).length ↔ pre ≠ text := by
  obtain ⟨rest, rfl⟩ := h.begins
  rw [length_encode_append]
  cases rest with
  | nil => simp
  | cons c rest =>
    have hpos : 0 < (encode (c :: rest)).length := by
      rw [encode_cons, List.length_append, String.length_utf8EncodeChar]
      exact Nat.add_pos_left c.utf8Size_pos _
    exact iff_of_true (by omega) (by simp)

lemma terminalSafe_cons (budget : Nat) (c : Char) (text : List Char) :
    terminalSafe budget (c :: text) =
      if (encode (shownChar c)).length > budget then ([], 0)
      else
        (shownChar c ++ (terminalSafe (budget - (encode (shownChar c)).length) text).1,
          (encode [c]).length +
            (terminalSafe (budget - (encode (shownChar c)).length) text).2) := rfl

/-- What `terminal_safe_into` shows. -/
lemma terminalSafe_cut (budget : Nat) (text : List Char) : ∃ pre, Cut budget text pre ∧
    terminalSafe budget text = (shown pre, (encode pre).length) := by
  induction text generalizing budget with
  | nil =>
    refine ⟨[], ⟨List.nil_prefix, Nat.zero_le budget, fun c hc => ?_⟩, rfl⟩
    simp at hc
  | cons c text ih =>
    rw [terminalSafe_cons]
    split_ifs with hlong
    · refine ⟨[], ⟨List.nil_prefix, Nat.zero_le budget, fun d hd => ?_⟩, rfl⟩
      obtain rfl : d = c := by simpa using hd
      simpa using hlong
    · obtain ⟨pre, hcut, heq⟩ := ih (budget - (encode (shownChar c)).length)
      have hfits := hcut.fits
      refine ⟨c :: pre, ⟨(List.prefix_cons_inj c).2 hcut.begins, ?_, fun d hd => ?_⟩, ?_⟩
      · rw [shown_cons, length_encode_append]
        omega
      · have hnext := hcut.longest d ((List.prefix_cons_inj c).1 hd)
        rw [List.cons_append, shown_cons, length_encode_append]
        omega
      · rw [heq, shown_cons, encode_cons, encode_cons, List.length_append, List.length_append]
        simp

/-! ## The final text -/

/-- A text shown within a budget, with the marker if it was cut. -/
def Shortened (budget : Nat) (text out : List Char) : Prop :=
  ∃ pre, Cut (budget - (encode (markerFor budget)).length) text pre ∧
    out = shown pre ++ if pre = text then [] else markerFor budget

lemma Shortened.length_le {out : List Char} (h : Shortened budget text out) :
    (encode out).length ≤ budget := by
  obtain ⟨pre, hcut, rfl⟩ := h
  have hfits := hcut.fits
  have hmarker := markerFor_le budget
  rw [length_encode_append]
  split_ifs
  · rw [encode_nil, List.length_nil]
    omega
  · omega

lemma Shortened.safe {out : List Char} (h : Shortened budget text out) : Safe out := by
  obtain ⟨pre, -, rfl⟩ := h
  refine (safe_shown pre).append ?_
  split_ifs
  · simp [Safe]
  · exact safe_markerFor budget

/-- The steps of `finish` that show a text. -/
lemma shortened (budget : Nat) (text : List Char) :
    let shows := terminalSafe (budget - (encode (markerFor budget)).length) text
    Shortened budget text
      (if shows.2 < (encode text).length then shows.1 ++ markerFor budget else shows.1) := by
  obtain ⟨pre, hcut, heq⟩ := terminalSafe_cut (budget - (encode (markerFor budget)).length) text
  refine ⟨pre, hcut, ?_⟩
  simp only [heq, hcut.lt_iff]
  by_cases hwhole : pre = text
  · simp [hwhole]
  · simp [hwhole]

/-- The length of what stands around a reason. -/
def fixed : Nat := (encode beforeReason).length + (encode [')']).length

/-- What is shown of an outcome: the text of the presenter, or the label with the reason why there
is none, if that has room. -/
def Finished (outcome : Except (List Char) (List Char)) (label : List Char) (budget : Nat)
    (out : List Char) : Prop :=
  match outcome with
  | .ok text => Shortened budget text out
  | .error error => ∃ pre, Cut budget label pre ∧
      if (encode (shown pre)).length + fixed ≤ budget then
        ∃ reason, Shortened (budget - (encode (shown pre)).length - fixed) error reason ∧
          out = shown pre ++ beforeReason ++ reason ++ [')']
      else out = shown pre

lemma finish_error (error label : List Char) (budget : Nat) :
    finish (.error error) label budget =
      let out := (terminalSafe budget label).1
      if (encode out).length + fixed ≤ budget then
        let room := budget - (encode (out ++ beforeReason)).length - (encode [')']).length
        let shows := terminalSafe (room - (encode (markerFor room)).length) error
        (if shows.2 < (encode error).length then out ++ beforeReason ++ shows.1 ++ markerFor room
          else out ++ beforeReason ++ shows.1) ++ [')']
      else out := rfl

lemma finished_finish (outcome : Except (List Char) (List Char)) (label : List Char)
    (budget : Nat) : Finished outcome label budget (finish outcome label budget) := by
  cases outcome with
  | ok text => exact shortened budget text
  | error error =>
    obtain ⟨pre, hcut, heq⟩ := terminalSafe_cut budget label
    refine ⟨pre, hcut, ?_⟩
    rw [finish_error]
    simp only [heq]
    by_cases hroom : (encode (shown pre)).length + fixed ≤ budget
    · rw [if_pos hroom, if_pos hroom]
      have hlength : budget - (encode (shown pre ++ beforeReason)).length - (encode [')']).length =
          budget - (encode (shown pre)).length - fixed := by
        rw [length_encode_append, fixed]
        omega
      rw [hlength]
      refine ⟨_, shortened _ error, ?_⟩
      split_ifs
      · simp
      · simp
    · rw [if_neg hroom, if_neg hroom]

/-- **Presented results**: the final text of an outcome is never longer than its budget and has no
control character but line feeds.  A presenter's text is shown whole if it fits beside the marker
once it is escaped, else as the longest beginning that does with the marker behind it; a failure
shows its label, cut at the budget, and as much of the reason as fits, if the words around it do. -/
theorem finish_shown (outcome : Except (List Char) (List Char)) (label : List Char) (budget : Nat) :
    (encode (finish outcome label budget)).length ≤ budget ∧ Safe (finish outcome label budget) ∧
      Finished outcome label budget (finish outcome label budget) := by
  have h := finished_finish outcome label budget
  refine ⟨?_, ?_, h⟩
  · cases outcome with
    | ok text => exact Shortened.length_le h
    | error error =>
      obtain ⟨pre, hcut, hout⟩ := h
      split_ifs at hout with hroom
      · obtain ⟨reason, hreason, heq⟩ := hout
        have hlength := hreason.length_le
        rw [heq, length_encode_append, length_encode_append, length_encode_append]
        unfold fixed at hroom hlength
        omega
      · rw [hout]
        exact hcut.fits
  · cases outcome with
    | ok text => exact Shortened.safe h
    | error error =>
      obtain ⟨pre, -, hout⟩ := h
      split_ifs at hout with hroom
      · obtain ⟨reason, hreason, heq⟩ := hout
        rw [heq]
        have hbefore : Safe beforeReason := safe_toList (by decide)
        exact (((safe_shown pre).append hbefore).append hreason.safe).append (by decide)
      · rw [hout]
        exact safe_shown pre

end Host.Present

end Rnx
