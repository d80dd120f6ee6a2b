import Rnx.Jupyter.Worker

/-!
# One stream of the worker

What a stream and its capture keep through an operation: what has been read since it began is what
was on its way then and what was written since, so the capture ends at the barrier and nowhere else.
-/

namespace Rnx

namespace Jupyter

open ErrState

namespace Capture

variable {c c' : Capture} {room : Bool} {bytes rest : Bytes}

/-- A capture that has ended hands everything back. -/
lemma feed_ended (h : c.ended = true) : feed room bytes c = (.ok bytes, c) := by
  unfold feed
  rw [run_get_bind, if_pos h]
  rfl

lemma keep_ended (c : Capture) : wp (keep room bytes) (fun _ t => t.ended = c.ended)
    (fun _ t => t.ended = c.ended) c := by
  unfold keep
  rw [wp_get_bind]
  apply wp_guardWith_bind
  · exact fun _ => rfl
  · intro _
    rw [wp_update_bind]
    apply wp_guardWith_bind
    · exact fun _ => rfl
    · exact fun _ => rfl

/-- A capture that fails has not ended. -/
lemma feed_error {e : CaptureError} (h : feed room bytes c = (.error e, c')) :
    c'.ended = false := by
  have hopen : c.ended = false := by
    by_contra hend
    rw [feed_ended (by simpa using hend)] at h
    cases h
  have hspec : wp (feed room bytes) (fun _ _ => True) (fun _ t => t.ended = false) c := by
    unfold feed
    rw [wp_get_bind, if_neg (by simp [hopen])]
    split
    · unfold feedFound
      rw [wp_get_bind, wp_update_bind, wp_bind]
      refine wp_mono (keep_ended _) (fun _ t _ => ?_) (fun _ t ht => by rw [ht]; exact hopen)
      rw [wp_update_bind]
      trivial
    · unfold feedMissed
      rw [wp_get_bind, wp_update_bind, wp_bind]
      refine wp_mono (keep_ended _) (fun _ t _ => ?_) (fun _ t ht => by rw [ht]; exact hopen)
      rw [wp_update_bind]
      trivial
  exact (wp_run h hspec).2 e rfl

end Capture

namespace Worker

open Capture

/-! ## A stream between operations and in one -/

/-- Between operations: what has not been read is the end of what was written since the barrier. -/
structure Line.Idle (ln : Line) : Prop where
  capture : ln.capture = none
  place : ln.place = .past
  output : ln.output = []
  gap : ∃ got, ln.gap = got ++ ln.pipe

/-- In an operation with the marker `m`: the bytes that were on their way when it began, `stray`,
are the end of what was written before its request was accepted. -/
structure Line.Open (m : Bytes) (ln : Line) (c : Capture) : Prop where
  history : ∃ l, Captured m l c ∧ streamOf l ++ ln.pipe = ln.since ∧ ln.sunk = takenBy l
  drained : ln.ended = true → c.ended = true ∧ c.sent = c.data.length
  early : ln.place ≠ .past → Barrier.position m ln.since = none ∧
    (ln.place = .before → ln.output = []) ∧
      ∃ lost stray, ln.gap = lost ++ stray ∧ ln.since = stray ++ ln.output
  late : ln.place = .past → ln.output = [] ∧ ∃ lost stray, ln.done.1 = lost ++ stray ∧
    ln.since = stray ++ ln.done.2 ++ m ++ ln.gap ∧
      Barrier.FirstAt m ln.since (stray ++ ln.done.2).length

/-- A stream whose reader has failed to keep what it read. -/
structure Line.Broken (ln : Line) (c : Capture) : Prop where
  capture : c.ended = false
  ended : ln.ended = false
  reader : ln.reader = false

/-- A stream in an operation. -/
def Line.Ok (m : Bytes) (place : Place) (ln : Line) : Prop :=
  ln.place = place ∧ ∃ c, ln.capture = some c ∧ (ln.Open m c ∨ ln.Broken c)

variable {ln : Line} {m b : Bytes} {c c' : Capture} {place : Place}

lemma Line.Open.marker (h : ln.Open m c) : c.marker = m := by
  obtain ⟨l, hl, -⟩ := h.history
  exact hl.marker

lemma Line.Open.marker_ne (h : ln.Open m c) : m ≠ [] := h.marker ▸ c.marker_ne

/-- What the operation before has left unread is on its way when the next begins. -/
lemma Line.Idle.begin (h : ln.Idle) (id : Nat) (name nonce : String)
    (hforged : (ln.begin (.new id name nonce)).isForged = false) :
    (ln.begin (.new id name nonce)).Ok (markerBytes id name nonce) .before := by
  obtain ⟨got, hgap⟩ := h.gap
  refine ⟨rfl, _, rfl, .inl ⟨⟨[], captured_new id name nonce, rfl, rfl⟩, nofun, fun _ => ?_, nofun⟩⟩
  have hnone : Barrier.position (markerBytes id name nonce) ln.pipe = none := by
    simpa [Line.isForged, Line.begin, Capture.new] using hforged
  refine ⟨hnone, fun _ => h.output, got, ln.pipe, hgap, ?_⟩
  change ln.pipe = ln.pipe ++ ln.output
  rw [h.output, List.append_nil]

lemma Line.write_during (h : ln.place = .during) (b : Bytes) : ln.write b =
    { ln with pipe := ln.pipe ++ b, output := ln.output ++ b, since := ln.since ++ b } := by
  unfold Line.write
  split
  · rfl
  · rename_i hne
    exact absurd h hne

lemma Line.write_gap (h : ln.place ≠ .during) (b : Bytes) : ln.write b =
    { ln with pipe := ln.pipe ++ b, gap := ln.gap ++ b, since := ln.since ++ b } := by
  unfold Line.write
  split
  · rename_i heq
    exact absurd heq h
  · rfl

lemma Line.read_idle (h : ln.capture = none) (n : Nat) (room roomLate : Bool) :
    ln.read n room roomLate =
      { ln with
        pipe := ln.pipe.drop n
        late := (ln.late.feed roomLate (ln.pipe.take n)).2
        reader := (ln.late.feed roomLate (ln.pipe.take n)).1 } := by
  unfold Line.read
  dsimp only
  split
  · rfl
  · rename_i c hc
    cases h.symm.trans hc

lemma Line.Idle.read (h : ln.Idle) (n : Nat) (room roomLate : Bool) :
    (ln.read n room roomLate).Idle := by
  obtain ⟨got, hgap⟩ := h.gap
  rw [Line.read_idle h.capture]
  refine ⟨h.capture, h.place, h.output, got ++ ln.pipe.take n, ?_⟩
  change ln.gap = _ ++ ln.pipe.drop n
  rw [List.append_assoc, List.take_append_drop, hgap]

/-- A read moves bytes from the pipe to the capture. -/
lemma Line.Ok.read (h : ln.Ok m place) (hreader : ln.reader = true) (n : Nat)
    (room roomLate : Bool) : (ln.read n room roomLate).Ok m place := by
  obtain ⟨hplace, c, hc, hopen | hbroken⟩ := h
  · obtain ⟨l, hl, hsince, hsunk⟩ := hopen.history
    unfold Line.read
    dsimp only
    rw [hc]
    dsimp only
    rcases hfeed : feed room (ln.pipe.take n) c with ⟨e | tail, c'⟩
    · refine ⟨hplace, c', rfl, .inr ⟨feed_error hfeed, ?_, rfl⟩⟩
      by_contra hended
      have hdone := (hopen.drained (by simpa using hended)).1
      rw [feed_ended hdone] at hfeed
      cases hfeed
    · have hnext : Capture.next c (.feed room (ln.pipe.take n)) = some (c', tail) := by
        simp only [Capture.next, hfeed]
      refine ⟨hplace, c', rfl,
        .inl ⟨⟨_, next_captured hl hnext, ?_, ?_⟩, ?_, hopen.early, hopen.late⟩⟩
      · change streamOf _ ++ ln.pipe.drop n = ln.since
        rw [streamOf_feed, List.append_assoc, List.take_append_drop, hsince]
      · rw [takenBy_feed]
        exact hsunk
      · intro hended
        have hdone := hopen.drained hended
        rw [feed_ended hdone.1] at hfeed
        obtain rfl := (Prod.mk.inj hfeed).2
        exact hdone
  · rw [hbroken.reader] at hreader
    cases hreader

/-- A chunk that is empty is taken where everything was. -/
lemma sent_of_take_empty (h : c.take.2 = []) : c.take.1.sent = c.take.1.data.length := by
  have hchunk := length_pos_chunk
  have hlength : ((c.data.take (min (c.sent + chunk) c.data.length)).drop c.sent).length = 0 :=
    congrArg List.length h
  rw [List.length_drop, List.length_take] at hlength
  rw [take_data]
  change min (c.sent + chunk) c.data.length = c.data.length
  omega

lemma Line.pull_ended (ln : Line) (c : Capture) :
    (ln.pull c).ended = (c.ended && c.take.2.isEmpty) := by
  rw [← take_ended]
  rfl

/-- A chunk that goes to the sink is the next of what was retained. -/
lemma Line.Ok.pull (h : ln.Ok m place) (hc : ln.capture = some c) : (ln.pull c).Ok m place := by
  obtain ⟨hplace, c₀, hc₀, hopen | hbroken⟩ := h
  · obtain rfl := Option.some.inj (hc.symm.trans hc₀)
    obtain ⟨l, hl, hsince, hsunk⟩ := hopen.history
    refine ⟨hplace, c.take.1, rfl, .inl ⟨⟨_, take_spec hl, ?_, ?_⟩, ?_, hopen.early, hopen.late⟩⟩
    · rw [streamOf_take]
      exact hsince
    · rw [takenBy_take, ← hsunk]
      rfl
    · intro hended
      rw [Line.pull_ended, Bool.and_eq_true] at hended
      rw [take_ended]
      exact ⟨hended.1, sent_of_take_empty (List.isEmpty_iff.1 hended.2)⟩
  · obtain rfl := Option.some.inj (hc.symm.trans hc₀)
    refine ⟨hplace, c.take.1, rfl, .inr ⟨?_, ?_, hbroken.reader⟩⟩
    · rw [take_ended]
      exact hbroken.capture
    · rw [Line.pull_ended, hbroken.capture, Bool.false_and]

lemma Line.Ok.accept (h : ln.Ok m .before) : ln.accept.Ok m .during := by
  obtain ⟨hplace, c, hc, hopen | hbroken⟩ := h
  · obtain ⟨hnone, -, hsplit⟩ := hopen.early (by rw [hplace]; decide)
    exact ⟨rfl, c, hc, .inl ⟨hopen.history, hopen.drained, fun _ => ⟨hnone, nofun, hsplit⟩, nofun⟩⟩
  · exact ⟨rfl, c, hc, .inr ⟨hbroken.capture, hbroken.ended, hbroken.reader⟩⟩

lemma Line.Idle.write (h : ln.Idle) (b : Bytes) : (ln.write b).Idle := by
  obtain ⟨got, hgap⟩ := h.gap
  rw [Line.write_gap (by rw [h.place]; decide)]
  refine ⟨h.capture, h.place, h.output, got, ?_⟩
  change ln.gap ++ b = got ++ (ln.pipe ++ b)
  rw [hgap, List.append_assoc]

/-- What is written belongs to the operation exactly from its acceptance to its barrier. -/
lemma Line.Ok.write (h : ln.Ok m place) (b : Bytes) (hforged : (ln.write b).isForged = false) :
    (ln.write b).Ok m place := by
  obtain ⟨hplace, c, hc, hopen | hbroken⟩ := h
  · obtain ⟨l, hl, hsince, hsunk⟩ := hopen.history
    have hmore : streamOf l ++ (ln.pipe ++ b) = ln.since ++ b := by
      rw [← List.append_assoc, hsince]
    have hmarker := hopen.marker
    by_cases hduring : ln.place = .during
    · obtain ⟨-, -, lost, stray, hgap, hstream⟩ := hopen.early (by rw [hduring]; decide)
      rw [Line.write_during hduring] at hforged ⊢
      have hnone : Barrier.position m (ln.since ++ b) = none := by
        simpa [Line.isForged, hduring, hc, hmarker] using hforged
      refine ⟨hplace, c, hc, .inl ⟨⟨l, hl, hmore, hsunk⟩, hopen.drained,
        fun _ => ⟨hnone, fun hbefore => ?_, lost, stray, hgap, ?_⟩, fun hpast => ?_⟩⟩
      · cases hduring.symm.trans hbefore
      · change ln.since ++ b = stray ++ (ln.output ++ b)
        rw [hstream, List.append_assoc]
      · cases hduring.symm.trans hpast
    · rw [Line.write_gap hduring] at hforged ⊢
      refine ⟨hplace, c, hc, .inl ⟨⟨l, hl, hmore, hsunk⟩, hopen.drained, fun hearly => ?_,
        fun hpast => ?_⟩⟩
      · have hnone : Barrier.position m (ln.since ++ b) = none := by
          simpa [Line.isForged, hearly, hc, hmarker] using hforged
        have hbefore : ln.place = .before := by
          cases hp : ln.place with
          | before => rfl
          | during => exact absurd hp hduring
          | past => exact absurd hp hearly
        obtain ⟨-, hempty, lost, stray, hgap, hstream⟩ := hopen.early hearly
        refine ⟨hnone, hempty, lost, stray ++ b, ?_, ?_⟩
        · change ln.gap ++ b = lost ++ (stray ++ b)
          rw [hgap, List.append_assoc]
        · change ln.since ++ b = stray ++ b ++ ln.output
          rw [hstream, hempty hbefore, List.append_nil, List.append_nil]
      · obtain ⟨hempty, lost, stray, hdone, hstream, hfirst⟩ := hopen.late hpast
        refine ⟨hempty, lost, stray, hdone, ?_, hfirst.append hopen.marker_ne b⟩
        change ln.since ++ b = _ ++ (ln.gap ++ b)
        rw [hstream, List.append_assoc _ ln.gap b]
  · by_cases hduring : ln.place = .during
    · rw [Line.write_during hduring]
      exact ⟨hplace, c, hc, .inr ⟨hbroken.capture, hbroken.ended, hbroken.reader⟩⟩
    · rw [Line.write_gap hduring]
      exact ⟨hplace, c, hc, .inr ⟨hbroken.capture, hbroken.ended, hbroken.reader⟩⟩

/-- The barrier is the first occurrence of the marker, unless it was forged. -/
lemma Line.Ok.bar (h : ln.Ok m .during) (hforged : ln.forges m = false) :
    (ln.bar m).Ok m .past := by
  obtain ⟨hplace, c, hc, hopen | hbroken⟩ := h
  · obtain ⟨l, hl, hsince, hsunk⟩ := hopen.history
    obtain ⟨-, -, lost, stray, hgap, hstream⟩ := hopen.early (by rw [hplace]; decide)
    have hfirst : Barrier.FirstAt m (ln.since ++ m) ln.since.length := by
      refine Barrier.position_some ?_
      simpa [Line.forges] using hforged
    refine ⟨rfl, c, hc, .inl ⟨⟨l, hl, ?_, hsunk⟩, hopen.drained, fun hne => absurd rfl hne,
      fun _ => ⟨rfl, lost, stray, hgap, ?_, ?_⟩⟩⟩
    · change streamOf l ++ (ln.pipe ++ m) = ln.since ++ m
      rw [← List.append_assoc, hsince]
    · change ln.since ++ m = stray ++ ln.output ++ m ++ []
      rw [hstream, List.append_nil]
    · change Barrier.FirstAt m (ln.since ++ m) (stray ++ ln.output).length
      rw [← hstream]
      exact hfirst
  · exact ⟨rfl, c, hc, .inr ⟨hbroken.capture, hbroken.ended, hbroken.reader⟩⟩

/-- What an operation has delivered of a stream once that has ended: the bytes that were on their
way when it began and those written from its acceptance to its barrier, as far as they are retained;
and what is left unread was written behind the barrier. -/
lemma Line.Ok.delivered (h : ln.Ok m .past) (hended : ln.ended = true) :
    ∃ c lost stray, ln.capture = some c ∧ ln.done.1 = lost ++ stray ∧ ln.output = [] ∧
      ln.sunk = (stray ++ ln.done.2).take cap ∧ c.discarded = (stray ++ ln.done.2).length - cap ∧
      ∃ got, ln.gap = got ++ ln.pipe := by
  obtain ⟨hplace, c, hc, hopen | hbroken⟩ := h
  · obtain ⟨l, hl, hsince, hsunk⟩ := hopen.history
    obtain ⟨hempty, lost, stray, hdone, hstream, hfirst⟩ := hopen.late hplace
    obtain ⟨hcended, hsent⟩ := hopen.drained hended
    obtain ⟨i, hi, hkept, -⟩ := hl.ended hcended
    have hm := hopen.marker_ne
    have hile := hi.le_length hm
    obtain rfl : i = (stray ++ ln.done.2).length := by
      refine Barrier.FirstAt.unique ?_ hfirst
      rw [← hsince]
      exact hi.append hm ln.pipe
    have hsplit : streamOf l ++ ln.pipe = stray ++ ln.done.2 ++ m ++ ln.gap := hsince.trans hstream
    have htake : (streamOf l).take (stray ++ ln.done.2).length = stray ++ ln.done.2 := by
      have hcut := congrArg (List.take (stray ++ ln.done.2).length) hsplit
      rwa [List.take_append_of_le_length (by omega), List.append_assoc, List.take_left' rfl] at hcut
    rw [htake] at hkept
    refine ⟨c, lost, stray, hc, hdone, hempty, ?_, hkept.discarded, ?_⟩
    · rw [hsunk, hl.taken, hsent, List.take_length, hkept.data]
    · refine ⟨(streamOf l).drop (stray ++ ln.done.2 ++ m).length, ?_⟩
      have hcut := congrArg (List.drop (stray ++ ln.done.2 ++ m).length) hsplit
      rw [List.drop_append_of_le_length (by rw [List.length_append]; omega),
        List.drop_left' rfl] at hcut
      exact hcut.symm
  · rw [hbroken.ended] at hended
    cases hended

lemma Line.Ok.clear (h : ln.Ok m .past) (hended : ln.ended = true) : ln.clear.Idle := by
  obtain ⟨c, lost, stray, -, -, hempty, -, -, hgap⟩ := h.delivered hended
  exact ⟨rfl, h.1, hempty, hgap⟩

end Worker

end Jupyter

end Rnx
