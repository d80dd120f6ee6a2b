import Rnx.Lib.Barrier
import Rnx.Lib.ErrState
import Rnx.Lib.Transition

/-!
# The capture of a worker's stream

`Capture` of `streams.rs`.  The bytes of one stream of the worker arrive in pieces of any size; a
marker in them ends the interval they belong to.  Up to the marker the first `CAP` bytes are
retained, for the kernel to take in chunks, and the rest is counted; what follows the marker is
handed back.  A piece may end in the middle of a marker, so the end of a piece that could be the
beginning of one is kept back.
-/

namespace Rnx

open ErrState

namespace Jupyter

/-- Bytes of a stream. -/
abbrev Bytes := List UInt8

/-- `CAP`. -/
def cap : Nat := 2 * 1024 * 1024

/-- `CHUNK`. -/
def chunk : Nat := 16 * 1024

/-- `u64::MAX`, the most a discard count holds. -/
def maxDiscarded : Nat := 0xffffffffffffffff

/-- The errors of `keep`. -/
inductive CaptureError
  | reserve
  | discardOverflow
deriving DecidableEq, Repr

/-- A capture.  Its marker is never empty. -/
structure Capture where
  marker : Bytes
  pending : Bytes
  data : Bytes
  sent : Nat
  discarded : Nat
  ended : Bool
  marker_ne : marker ≠ []

namespace Capture

/-- The bytes of the marker. -/
def markerBytes (id : Nat) (name nonce : String) : Bytes :=
  ("\x1eRNX-WORKER-1:" ++ toString id ++ ":" ++ name ++ ":" ++ nonce ++ "\x1f").toUTF8.data.toList

lemma markerBytes_ne (id : Nat) (name nonce : String) : markerBytes id name nonce ≠ [] := by
  intro hnil
  have hend : "\x1f".toByteArray.data = #[] := by
    simp only [markerBytes, String.toUTF8, String.toByteArray_append, ByteArray.data_append,
      Array.toList_append, List.append_eq_nil_iff, Array.toList_eq_nil_iff] at hnil
    exact hnil.2
  exact absurd hend (by decide)

/-- `Capture::new`. -/
def new (id : Nat) (name nonce : String) : Capture where
  marker := markerBytes id name nonce
  pending := []
  data := []
  sent := 0
  discarded := 0
  ended := false
  marker_ne := markerBytes_ne id name nonce

/-- `keep`.  `room` says whether the reservation succeeds. -/
def keep (room : Bool) (bytes : Bytes) : ErrState CaptureError Capture Unit := do
  let c ← .get
  let n := min bytes.length (cap - c.data.length)
  .guardWith (room = true) .reserve
  .update fun c => { c with data := c.data ++ bytes.take n }
  .guardWith (c.discarded + (bytes.length - n) ≤ maxDiscarded) .discardOverflow
  .update fun c => { c with discarded := c.discarded + (bytes.length - n) }

/-- The marker is in the bytes at hand: what precedes it is kept, what follows is handed back. -/
def feedFound (room : Bool) (pending : Bytes) (i : Nat) : ErrState CaptureError Capture Bytes := do
  let c ← .get
  .update fun c => { c with pending := [] }
  keep room (pending.take i)
  .update fun c => { c with ended := true }
  pure (pending.drop (i + c.marker.length))

/-- The marker is not there: the longest end that may begin one is kept back. -/
def feedMissed (room : Bool) (pending : Bytes) : ErrState CaptureError Capture Bytes := do
  let c ← .get
  let n := pending.length - Barrier.overlap c.marker pending
  .update fun c => { c with pending := [] }
  keep room (pending.take n)
  .update fun c => { c with pending := pending.drop n }
  pure []

/-- `feed`. -/
def feed (room : Bool) (bytes : Bytes) : ErrState CaptureError Capture Bytes := do
  let c ← .get
  if c.ended = true then pure bytes
  else
    match Barrier.position c.marker (c.pending ++ bytes) with
    | some i => feedFound room (c.pending ++ bytes) i
    | none => feedMissed room (c.pending ++ bytes)

/-- `take`. -/
def take (c : Capture) : Capture × Bytes :=
  let last := min (c.sent + chunk) c.data.length
  ({ c with sent := last }, (c.data.take last).drop c.sent)

/-! ## Runs -/

/-- The calls on a capture. -/
inductive Event
  | feed (room : Bool) (bytes : Bytes)
  | take

/-- One call that returns. -/
def next (c : Capture) : Event → Option (Capture × Bytes)
  | .feed room bytes =>
      match feed room bytes c with
      | (.ok rest, c') => some (c', rest)
      | (.error _, _) => none
  | .take => some c.take

/-- A capture and its calls. -/
def machine : Machine Capture Event Bytes where
  start c := ∃ id name nonce, c = new id name nonce
  next := next

/-- The piece an event brings. -/
def Event.input : Event → Bytes
  | .feed _ bytes => bytes
  | .take => []

/-- What a call hands back of the stream. -/
def released : Event × Bytes → Bytes
  | (.feed _ _, rest) => rest
  | (.take, _) => []

/-- What a call takes of the retained data. -/
def taken : Event × Bytes → Bytes
  | (.feed _ _, _) => []
  | (.take, bytes) => bytes

/-- The bytes of a number of further calls of `take`. -/
def drain : Nat → Capture → Bytes
  | 0, _ => []
  | n + 1, c => c.take.2 ++ drain n c.take.1

/-! ## What a capture has -/

/-- The first `CAP` of the bytes let go are retained, the others counted. -/
structure Retained (c : Capture) (kept : Bytes) : Prop where
  data : c.data = kept.take cap
  discarded : c.discarded = kept.length - cap

variable {c c' : Capture} {kept stream bytes rest : Bytes} {room : Bool}

/-- A capture with more bytes let go. -/
def letGo (c : Capture) (bytes : Bytes) : Capture :=
  { c with
    data := c.data ++ bytes.take (min bytes.length (cap - c.data.length))
    discarded := c.discarded + (bytes.length - min bytes.length (cap - c.data.length)) }

/-- `keep` lets the bytes go.  It fails only if the reservation does, or the count overflows. -/
lemma keep_spec (c : Capture) : wp (keep room bytes) (fun _ t => t = c.letGo bytes)
    (fun _ _ => room = false ∨ maxDiscarded < (c.letGo bytes).discarded) c := by
  unfold keep
  rw [wp_get_bind]
  apply wp_guardWith_bind
  · intro hroom
    exact .inl (by simpa using hroom)
  · intro _
    rw [wp_update_bind]
    apply wp_guardWith_bind
    · intro hover
      exact .inr (Nat.lt_of_not_le hover)
    · intro _
      exact rfl

lemma Retained.letGo (h : Retained c kept) (bytes : Bytes) :
    Retained (c.letGo bytes) (kept ++ bytes) := by
  have hlen : c.data.length = min cap kept.length := by rw [h.data, List.length_take]
  constructor
  · change c.data ++ bytes.take (min bytes.length (cap - c.data.length)) = (kept ++ bytes).take cap
    rw [List.take_append, ← h.data, hlen, show cap - min cap kept.length = cap - kept.length by omega]
    congr 1
    rcases Nat.le_total bytes.length (cap - kept.length) with hle | hge
    · rw [Nat.min_eq_left hle, List.take_of_length_le hle, List.take_of_length_le (Nat.le_refl _)]
    · rw [Nat.min_eq_right hge]
  · change c.discarded + (bytes.length - min bytes.length (cap - c.data.length)) = _
    rw [h.discarded, hlen, List.length_append]
    omega

/-! ## What a run of calls has done -/

/-- The stream a list of calls has brought. -/
def streamOf (l : List (Event × Bytes)) : Bytes := l.flatMap (·.1.input)

/-- What a list of calls has handed back. -/
def releasedBy (l : List (Event × Bytes)) : Bytes := l.flatMap released

/-- What a list of calls has taken. -/
def takenBy (l : List (Event × Bytes)) : Bytes := l.flatMap taken

/-- What a capture has done with the stream.  Before the marker it withholds a proper prefix of it;
the marker ends the capture where it first occurs; and the chunks taken are the retained data, as
far as they go. -/
structure Captured (m : Bytes) (l : List (Event × Bytes)) (c : Capture) : Prop where
  marker : c.marker = m
  waiting : c.ended = false →
    ∃ kept, Barrier.Held m (streamOf l) kept c.pending ∧ Retained c kept ∧ releasedBy l = []
  ended : c.ended = true → ∃ i, Barrier.FirstAt m (streamOf l) i ∧
    Retained c ((streamOf l).take i) ∧ releasedBy l = (streamOf l).drop (i + m.length)
  sent_le : c.sent ≤ c.data.length
  taken : takenBy l = c.data.take c.sent

variable {m : Bytes} {l : List (Event × Bytes)} {i : Nat}

@[simp] lemma streamOf_feed : streamOf (l ++ [(.feed room bytes, rest)]) = streamOf l ++ bytes := by
  simp [streamOf, Event.input]

@[simp] lemma streamOf_take : streamOf (l ++ [(.take, rest)]) = streamOf l := by
  simp [streamOf, Event.input]

@[simp] lemma releasedBy_feed :
    releasedBy (l ++ [(.feed room bytes, rest)]) = releasedBy l ++ rest := by
  simp [releasedBy, released]

@[simp] lemma releasedBy_take : releasedBy (l ++ [(.take, rest)]) = releasedBy l := by
  simp [releasedBy, released]

@[simp] lemma takenBy_feed : takenBy (l ++ [(.feed room bytes, rest)]) = takenBy l := by
  simp [takenBy, Capture.taken]

@[simp] lemma takenBy_take : takenBy (l ++ [(.take, rest)]) = takenBy l ++ rest := by
  simp [takenBy, Capture.taken]

/-- Data let go goes behind what was already sent. -/
lemma take_letGo (h : c.sent ≤ c.data.length) :
    (c.letGo bytes).data.take c.sent = c.data.take c.sent :=
  List.take_append_of_le_length h

lemma le_letGo (h : c.sent ≤ c.data.length) : c.sent ≤ (c.letGo bytes).data.length := by
  refine h.trans ?_
  change _ ≤ (c.data ++ _).length
  rw [List.length_append]
  exact Nat.le_add_right _ _

/-- A failure of `keep`: there was no room, or the count would have overflowed. -/
def Failed (room : Bool) (n : Nat) : Prop := room = false ∨ maxDiscarded < n

lemma Retained.failed (h : Retained c kept) {n : Nat} (hn : (kept ++ bytes).length ≤ n)
    (hfail : room = false ∨ maxDiscarded < (c.letGo bytes).discarded) : Failed room n := by
  obtain hroom | hover := hfail
  · exact .inl hroom
  · rw [(h.letGo bytes).discarded] at hover
    exact .inr (by omega)

/-- The piece that completes the marker. -/
lemma feedFound_spec (h : Captured m l c) (hheld : Barrier.Held m (streamOf l) kept c.pending)
    (hkept : Retained c kept) (hnone : releasedBy l = [])
    (hpos : Barrier.position m (c.pending ++ bytes) = some i) :
    wp (feedFound room (c.pending ++ bytes) i)
      (fun rest t => Captured m (l ++ [(.feed room bytes, rest)]) t)
      (fun _ _ => Failed room (streamOf l ++ bytes).length) c := by
  have hfirst := hheld.found hpos
  have htake : kept ++ (c.pending ++ bytes).take i = (streamOf l ++ bytes).take (kept.length + i) := by
    rw [← hheld.split, List.append_assoc, List.take_length_add_append]
  unfold feedFound
  rw [wp_get_bind, wp_update_bind]
  refine wp_seq (keep_spec _) ?_ ?_
  · intro _ _ hfail
    refine Retained.failed (c := { c with pending := [] }) ⟨hkept.data, hkept.discarded⟩ ?_ hfail
    rw [htake]
    exact List.length_take_le' _ _
  · rintro ⟨⟩ _ rfl
    rw [wp_update_bind]
    have hgo : Retained (c.letGo ((c.pending ++ bytes).take i)) _ := hkept.letGo _
    constructor
    · exact h.marker
    · intro hend
      cases hend
    · intro _
      refine ⟨kept.length + i, ?_, ?_, ?_⟩
      · rwa [streamOf_feed]
      · rw [streamOf_feed, ← htake]
        exact ⟨hgo.data, hgo.discarded⟩
      · rw [releasedBy_feed, streamOf_feed, hnone, List.nil_append, Nat.add_assoc, hheld.drop,
          h.marker]
    · exact le_letGo (c := { c with pending := [] }) h.sent_le
    · rw [takenBy_feed, h.taken]
      exact (take_letGo (c := { c with pending := [] }) h.sent_le).symm

/-- A piece without the end of a marker in it. -/
lemma feedMissed_spec (h : Captured m l c) (hheld : Barrier.Held m (streamOf l) kept c.pending)
    (hkept : Retained c kept) (hnone : releasedBy l = [])
    (hpos : Barrier.position m (c.pending ++ bytes) = none) (hopen : c.ended = false) :
    wp (feedMissed room (c.pending ++ bytes))
      (fun rest t => Captured m (l ++ [(.feed room bytes, rest)]) t)
      (fun _ _ => Failed room (streamOf l ++ bytes).length) c := by
  obtain rfl := h.marker
  have hmissed := hheld.missed c.marker_ne hpos rfl
  unfold feedMissed
  rw [wp_get_bind, wp_update_bind]
  refine wp_seq (keep_spec _) ?_ ?_
  · intro _ _ hfail
    refine Retained.failed (c := { c with pending := [] }) ⟨hkept.data, hkept.discarded⟩ ?_ hfail
    rw [← hmissed.split]
    exact (List.prefix_append _ _).length_le
  · rintro ⟨⟩ _ rfl
    rw [wp_update_bind]
    have hgo := hkept.letGo
      ((c.pending ++ bytes).take
      ((c.pending ++ bytes).length - Barrier.overlap c.marker (c.pending ++ bytes)))
    constructor
    · exact h.marker
    · intro _
      refine ⟨_, ?_, ⟨hgo.data, hgo.discarded⟩, ?_⟩
      · rw [streamOf_feed]
        exact hmissed
      · rw [releasedBy_feed, hnone]
        rfl
    · intro hend
      exact absurd hend (by simp [letGo, hopen])
    · exact le_letGo (c := { c with pending := [] }) h.sent_le
    · rw [takenBy_feed, h.taken]
      exact (take_letGo (c := { c with pending := [] }) h.sent_le).symm

/-- One call of `feed`. -/
lemma feed_spec (h : Captured m l c) :
    wp (feed room bytes) (fun rest t => Captured m (l ++ [(.feed room bytes, rest)]) t)
      (fun _ _ => Failed room (streamOf l ++ bytes).length) c := by
  unfold feed
  rw [wp_get_bind]
  by_cases hend : c.ended = true
  · obtain ⟨i, hfirst, hkept, hrest⟩ := h.ended hend
    have hm : m ≠ [] := h.marker ▸ c.marker_ne
    have hle := hfirst.le_length hm
    rw [if_pos hend, wp_pure]
    constructor
    · exact h.marker
    · intro hopen
      rw [hend] at hopen
      cases hopen
    · intro _
      refine ⟨i, ?_, ?_, ?_⟩
      · rw [streamOf_feed]
        exact hfirst.append hm bytes
      · rwa [streamOf_feed, List.take_append_of_le_length (by omega)]
      · rw [releasedBy_feed, streamOf_feed, List.drop_append_of_le_length hle, hrest]
    · exact h.sent_le
    · rw [takenBy_feed]
      exact h.taken
  · obtain ⟨kept, hheld, hkept, hnone⟩ := h.waiting (by simpa using hend)
    rw [if_neg hend, h.marker]
    cases hpos : Barrier.position m (c.pending ++ bytes) with
    | some i => exact feedFound_spec h hheld hkept hnone hpos
    | none => exact feedMissed_spec h hheld hkept hnone hpos (by simpa using hend)

/-- What is handed over up to a place. -/
lemma take_to {last : Nat} (h : Captured m l c) (hlast : c.sent ≤ last)
    (hle : last ≤ c.data.length) :
    Captured m (l ++ [(.take, (c.data.take last).drop c.sent)]) { c with sent := last } := by
  constructor
  · exact h.marker
  · intro hopen
    obtain ⟨kept, hheld, hkept, hnone⟩ := h.waiting hopen
    refine ⟨kept, ?_, ⟨hkept.data, hkept.discarded⟩, ?_⟩
    · rwa [streamOf_take]
    · rwa [releasedBy_take]
  · intro hend
    obtain ⟨i, hfirst, hkept, hrest⟩ := h.ended hend
    refine ⟨i, ?_, ?_, ?_⟩
    · rwa [streamOf_take]
    · rw [streamOf_take]
      exact ⟨hkept.data, hkept.discarded⟩
    · rwa [releasedBy_take, streamOf_take]
  · exact hle
  · rw [takenBy_take, h.taken]
    change c.data.take c.sent ++ (c.data.take last).drop c.sent = c.data.take last
    have hprefix : (c.data.take last).take c.sent = c.data.take c.sent := by
      rw [List.take_take, Nat.min_eq_left hlast]
    rw [← hprefix, List.take_append_drop]

/-- One call of `take`. -/
lemma take_spec (h : Captured m l c) : Captured m (l ++ [(.take, c.take.2)]) c.take.1 :=
  take_to h (Nat.le_min.2 ⟨Nat.le_add_right _ _, h.sent_le⟩) (Nat.min_le_right _ _)

lemma take_fst (c : Capture) :
    c.take.1 = { c with sent := min (c.sent + chunk) c.data.length } := rfl

lemma take_sent (c : Capture) : c.take.1.sent = min (c.sent + chunk) c.data.length := rfl

lemma take_snd (c : Capture) :
    c.take.2 = (c.data.take (min (c.sent + chunk) c.data.length)).drop c.sent := rfl

lemma data_sent (c : Capture) (n : Nat) : ({ c with sent := n } : Capture).data = c.data := rfl

lemma ended_sent (c : Capture) (n : Nat) : ({ c with sent := n } : Capture).ended = c.ended := rfl

-- Not by `rfl`, which would compare the places of the two captures and compute with the chunk.
lemma take_data (c : Capture) : c.take.1.data = c.data :=
  (congrArg Capture.data (take_fst c)).trans (data_sent c _)

lemma take_ended (c : Capture) : c.take.1.ended = c.ended :=
  (congrArg Capture.ended (take_fst c)).trans (ended_sent c _)

/-! ## Draining -/

lemma length_pos_chunk : 0 < chunk := by decide

/-- Enough calls of `take` hand over what is left of the retained data. -/
lemma drain_eq (h : c.sent ≤ c.data.length) (n : Nat) (hn : c.data.length ≤ c.sent + n * chunk) :
    drain n c = c.data.drop c.sent := by
  induction n generalizing c with
  | zero => rw [List.drop_of_length_le (by omega)]; rfl
  | succ n ih =>
      have hlast : c.sent ≤ min (c.sent + chunk) c.data.length :=
        Nat.le_min.2 ⟨Nat.le_add_right _ _, h⟩
      have hrest : drain n c.take.1 = c.data.drop (min (c.sent + chunk) c.data.length) := by
        rw [ih ?_ ?_, take_data, take_sent]
        · rw [take_data, take_sent]
          exact Nat.min_le_right _ _
        · rw [take_data, take_sent]
          rw [Nat.succ_mul] at hn
          omega
      rw [drain, hrest, take_snd,
        ← List.drop_append_of_le_length (by rw [List.length_take]; omega), List.take_append_drop]

/-- The captured stream, whatever the pieces: the marker ends the capture where it first occurs,
everything before it is retained or counted, everything behind it is handed back, and the chunks
taken so far and those still to come are the retained data. -/
structure Exact (c : Capture) (l : List (Event × Bytes)) : Prop where
  ended_iff : c.ended = true ↔ c.marker <:+: streamOf l
  ended : ∀ i, Barrier.FirstAt c.marker (streamOf l) i →
    Retained c ((streamOf l).take i) ∧ releasedBy l = (streamOf l).drop (i + c.marker.length)
  waiting : c.ended = false → ∃ kept, kept ++ c.pending = streamOf l ∧ Retained c kept ∧
    releasedBy l = [] ∧ c.pending <+: c.marker ∧ c.pending ≠ c.marker
  drained : ∀ n, c.data.length ≤ c.sent + n * chunk → takenBy l ++ drain n c = c.data

lemma Captured.exact (h : Captured m l c) : Exact c l := by
  obtain rfl := h.marker
  have hiff : c.ended = true ↔ c.marker <:+: streamOf l := by
    constructor
    · intro hend
      obtain ⟨i, hfirst, -⟩ := h.ended hend
      exact hfirst.isInfix
    · intro hocc
      by_contra hopen
      obtain ⟨kept, hheld, -⟩ := h.waiting (by simpa using hopen)
      exact Barrier.not_isInfix hheld.absent hocc
  constructor
  · exact hiff
  · intro i hfirst
    obtain ⟨j, hfirst', hkept, hrest⟩ := h.ended (hiff.2 hfirst.isInfix)
    obtain rfl := hfirst.unique hfirst'
    exact ⟨hkept, hrest⟩
  · intro hopen
    obtain ⟨kept, hheld, hkept, hnone⟩ := h.waiting hopen
    refine ⟨kept, hheld.split, hkept, hnone, hheld.proper, ?_⟩
    intro heq
    have := hheld.short
    rw [heq] at this
    exact Nat.lt_irrefl _ this
  · intro n hn
    rw [h.taken, drain_eq h.sent_le n hn, List.take_append_drop]

lemma captured_new (id : Nat) (name nonce : String) :
    Captured (new id name nonce).marker [] (new id name nonce) where
  marker := rfl
  waiting _ := ⟨[], .nil (new id name nonce).marker_ne, ⟨rfl, rfl⟩, rfl⟩
  ended h := by cases h
  sent_le := Nat.le_refl 0
  taken := rfl

lemma next_captured {e : Event} (h : Captured m l c) (hnext : next c e = some (c', rest)) :
    Captured m (l ++ [(e, rest)]) c' := by
  cases e with
  | feed room bytes =>
      rcases hrun : feed room bytes c with ⟨e | x, t⟩
      · simp only [next, hrun] at hnext
        cases hnext
      · simp only [next, hrun, Option.some.injEq, Prod.mk.injEq] at hnext
        obtain ⟨rfl, rfl⟩ := hnext
        exact (wp_run hrun (feed_spec h)).1 _ rfl
  | take =>
      obtain rfl := (Prod.ext_iff.1 (Option.some.inj hnext)).1
      obtain rfl := (Prod.ext_iff.1 (Option.some.inj hnext)).2
      exact take_spec h

lemma run_captured {id : Nat} {name nonce : String}
    (h : machine.Run (new id name nonce) l c) : Captured (new id name nonce).marker l c :=
  h.history (fun _ _ _ _ _ hc hnext => next_captured hc hnext) [] (captured_new id name nonce)

/-! ## Calls return -/

/-- The reservation of a call succeeds. -/
def Event.Allocates : Event → Prop
  | .feed room _ => room = true
  | .take => True

/-- With room for what is retained and a stream whose length fits the count, every call returns. -/
lemma exists_run {events : List Event} (h : Captured m l c) (hroom : ∀ e ∈ events, e.Allocates)
    (hlen : (streamOf l).length + (events.flatMap Event.input).length ≤ maxDiscarded) :
    ∃ l' c', machine.Run c l' c' ∧ l'.map Prod.fst = events := by
  induction events generalizing c l with
  | nil => exact ⟨[], c, .nil c, rfl⟩
  | cons e events ih =>
      have hreturns : ∃ rest t, next c e = some (t, rest) ∧
          (streamOf (l ++ [(e, rest)])).length = (streamOf l).length + e.input.length := by
        cases e with
        | take => exact ⟨c.take.2, c.take.1, rfl, by simp [Event.input]⟩
        | feed room bytes =>
            have hspec : wp (feed room bytes) _
                (fun _ _ => Failed room (streamOf l ++ bytes).length) c := feed_spec h
            rcases hrun : feed room bytes c with ⟨e | rest, t⟩
            · obtain hfail | hover := (wp_run hrun hspec).2 _ rfl
              · have halloc := hroom _ List.mem_cons_self
                rw [Event.Allocates, hfail] at halloc
                cases halloc
              · rw [List.length_append] at hover
                rw [List.flatMap_cons, List.length_append] at hlen
                change _ + (bytes.length + _) ≤ _ at hlen
                omega
            · exact ⟨rest, t, by simp only [next, hrun], by simp [Event.input]⟩
      obtain ⟨rest, t, hnext, hstream⟩ := hreturns
      rw [List.flatMap_cons, List.length_append] at hlen
      obtain ⟨l', c', hrun, hmap⟩ := ih (next_captured h hnext)
        (fun x hx => hroom x (List.mem_cons_of_mem _ hx)) (by omega)
      exact ⟨(e, rest) :: l', c', .cons hnext hrun, by rw [List.map_cons, hmap]⟩

/-- **Capture does not depend on the pieces.**  Whatever calls are made, in whatever order and
with the stream cut up in any way, what they have done is exact; and no call fails while there is
room for what is retained and the discarded bytes can be counted. -/
theorem capture_exact (id : Nat) (name nonce : String) :
    (∀ l c, machine.Run (new id name nonce) l c → Exact c l) ∧
      ∀ events, (∀ e ∈ events, e.Allocates) →
        (events.flatMap Event.input).length ≤ maxDiscarded →
        ∃ l c, machine.Run (new id name nonce) l c ∧ l.map Prod.fst = events := by
  refine ⟨fun l c hrun => (run_captured hrun).exact, ?_⟩
  intro events hroom hlen
  apply exists_run (captured_new id name nonce) hroom
  change 0 + _ ≤ _
  omega

/-- The promise for a piece that ends in the first byte of a marker. -/
theorem capture_exact_stdout : ∃ l c, machine.Run (new 1 "stdout" "n") l c ∧ Exact c l := by
  obtain ⟨hexact, hruns⟩ := capture_exact 1 "stdout" "n"
  obtain ⟨l, c, hrun, -⟩ := hruns [.feed true [104, 105, 30], .take]
    (by simp [Event.Allocates]) (by decide)
  exact ⟨l, c, hrun, hexact l c hrun⟩

end Capture

end Jupyter

end Rnx
