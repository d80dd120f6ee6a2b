import Mathlib.Data.List.Nodup
import Mathlib.Data.List.Perm.Subperm
import Rnx.Jupyter.Handlers

/-!
# One reply a request

What the log of a kernel says about its requests, in every state of every run.

An execute request that is over has one answer, within one busy and one idle status, unless something
failed while it was served, the loop was shut down while it was executed, or it was dropped with the
queue of an execution that failed.  Requests are executed in the order they were admitted, none of
them after it was aborted, and the counter counts those that were started to be stored.
-/

namespace Rnx

namespace Jupyter.Kernel

variable {k : State} {log : List (Nat × Mark)} {m : List Mark} {r : Nat} {rune : String}
  {kind : Mark → Bool}

/-! ## What is promised -/

/-- The requests that are not over. -/
def State.waiting (k : State) : List Nat := k.dues.map (·.1)

/-- What the log says about a request. -/
def State.about (k : State) (r : Nat) : List Mark := Ledger.about r (marks k.out.log)

/-- Nothing failed while the request was served, and it was not dropped. -/
def Undisturbed (m : List Mark) : Prop := .failed ∉ m ∧ .abandoned ∉ m ∧ .left ∉ m

instance : Decidable (Undisturbed m) := inferInstanceAs (Decidable (_ ∧ _ ∧ _))

/-- An answer to an execute request: a reply, or none because its connection is closed. -/
def Mark.isAnswer : Mark → Bool
  | .reply .executeReply | .closed => true
  | _ => false

/-- An answer, or one that could not be sent. -/
def Mark.isLast : Mark → Bool
  | .reply .executeReply | .closed | .unsent => true
  | _ => false

/-- A start. -/
def Mark.isStart : Mark → Bool
  | .started _ => true
  | _ => false

/-- An execution. -/
def Mark.isExecuted : Mark → Bool
  | .executed => true
  | _ => false

/-- An abortion. -/
def Mark.isAborted : Mark → Bool
  | .aborted => true
  | _ => false

/-- The status a mark is. -/
def Mark.status? : Mark → Option Status
  | .busy => some .busy
  | .idle => some .idle
  | _ => none

/-- The statuses published for a request. -/
def statuses (m : List Mark) : List Status := m.filterMap Mark.status?

/-- An execute request that is over.  One that is executed and fails before it is answered gets one
last answer, and no idle status is made up for it. -/
structure Answered (m : List Mark) : Prop where
  once : Undisturbed m → m.countP Mark.isAnswer = 1
  status : Undisturbed m → statuses m = [.busy, .idle]
  starts : Undisturbed m → .executed ∈ m → m.countP Mark.isStart = 1
  most : .executed ∉ m ∨ .failed ∉ m → m.countP Mark.isAnswer ≤ 1
  died : .executed ∈ m → .failed ∈ m → (m.takeWhile (· ≠ .failed)).countP Mark.isAnswer = 0 →
    m.countP Mark.isLast = 1 ∧ .idle ∉ m

instance : Decidable (Answered m) :=
  decidable_of_iff
    ((Undisturbed m → m.countP Mark.isAnswer = 1) ∧
      (Undisturbed m → Kernel.statuses m = [.busy, .idle]) ∧
      (Undisturbed m → .executed ∈ m → m.countP Mark.isStart = 1) ∧
      (.executed ∉ m ∨ .failed ∉ m → m.countP Mark.isAnswer ≤ 1) ∧
      (.executed ∈ m → .failed ∈ m → (m.takeWhile (· ≠ .failed)).countP Mark.isAnswer = 0 →
        m.countP Mark.isLast = 1 ∧ .idle ∉ m))
    ⟨fun ⟨h₁, h₂, h₃, h₄, h₅⟩ => ⟨h₁, h₂, h₃, h₄, h₅⟩, fun h => ⟨h.1, h.2, h.3, h.4, h.5⟩⟩

/-- The queue: each request enters it once, what is executed is executed in the order it was
admitted, and what is aborted is not executed. -/
structure InOrder (log : List (Nat × Mark)) : Prop where
  once : (numbers Mark.enters log).Nodup
  order : (numbers Mark.isExecuted log).Sublist (numbers Mark.enters log)
  aborted : ∀ r ∈ numbers Mark.isAborted log, r ∉ numbers Mark.isExecuted log

/-- The loop waits for a job, or for the worker. -/
def State.waits (k : State) : Prop :=
  match k.stage with
  | .head => k.stop = false ∧ k.pending = []
  | .operating _ _ op => op.reply = none
  | .finished _ => True
  | _ => False

/-- No request is stuck: handlers of execute requests go on, and so does the loop where it does not
wait; where it waits for the worker, the worker's failure ends the wait; and at its end the queue is
empty and closed. -/
structure Moves (rune : String) (k : State) : Prop where
  handlers : ∀ i v, k.serving[i]? = some v → v.due.2 = .refusal →
    ∀ o, ∃ t, next rune k (.serve i o) = some t
  loop : ¬ k.waits → ∀ o, ∃ t, next rune k (.run o) = some t
  worker : ∀ job count op, k.stage = .operating job count op →
    ∀ e, ∃ t, next rune k (.workerFails e) = some t
  finished : ∀ failure, k.stage = .finished failure → k.pending = [] ∧ k.retiring = true

/-- The promises of the kernel to the requests. -/
structure Serves (rune : String) (k : State) : Prop where
  answered : ∀ r, .arrived true ∈ k.about r → r ∈ k.waiting ∨ Answered (k.about r)
  waiting : k.waiting.Nodup
  status : ∀ r, statuses (k.about r) = [] ∨ statuses (k.about r) = [.busy] ∨
    statuses (k.about r) = [.busy, .idle]
  idle : ∀ r, r ∉ k.waiting → Undisturbed (k.about r) → statuses (k.about r) ≠ [.busy]
  inOrder : InOrder (marks k.out.log)
  count : k.count = (marks k.out.log).countP fun e => e.2.counts
  starts : ∀ r, (k.about r).countP Mark.isStart ≤ 1
  moves : Moves rune k

/-! ## The courses keep the promises -/

lemma Informed.not_arrived (h : Informed m) : .arrived true ∉ m := by
  cases h with
  | bracketed served =>
      obtain ⟨rfl | rfl⟩ := served
      · simp
      · simp
  | plain answers =>
      obtain rfl | rfl := answers
      · simp
      · simp

lemma Informing.not_arrived (h : Informing m) : .arrived true ∉ m := by
  cases h with
  | bracket bracket =>
      cases bracket with
      | none => simp
      | busy => simp
      | answered answers => obtain rfl | rfl := answers <;> simp
      | idle answers => obtain rfl | rfl := answers <;> simp
  | plain answers => obtain rfl | rfl := answers <;> simp

/-- How far a refusal came, with an answer that is a reply or none. -/
lemma Bracket.cases {P : List Mark → Prop} (h : Bracket .executeReply m)
    (all : P [] ∧ P [.busy] ∧ P [.busy, .reply .executeReply] ∧ P [.busy, .closed] ∧
      P [.busy, .reply .executeReply, .idle] ∧ P [.busy, .closed, .idle]) : P m := by
  obtain ⟨none, busy, replied, closed, repliedIdle, closedIdle⟩ := all
  cases h with
  | none => exact none
  | busy => exact busy
  | answered answers =>
      obtain rfl | rfl := answers
      · exact replied
      · exact closed
  | idle answers =>
      obtain rfl | rfl := answers
      · exact repliedIdle
      · exact closedIdle

lemma Begun.cases {P : List Mark → Prop} (h : Begun m) (popped : P [])
    (started : ∀ store, P [.started store] ∧ P [.started store, .busy] ∧
      P [.started store, .busy, .reply .executeReply] ∧ P [.started store, .busy, .closed] ∧
      P [.started store, .busy, .reply .executeReply, .idle] ∧
      P [.started store, .busy, .closed, .idle]) : P m := by
  cases h with
  | popped => exact popped
  | started store bracket => exact bracket.cases (P := fun b => P (.started store :: b)) (started store)

/-- An execute request that is over keeps what is promised of it. -/
lemma Course.answered (h : Course m) (hm : .arrived true ∈ m) : Answered m := by
  cases h with
  | refused served => obtain ⟨rfl | rfl⟩ := served <;> decide
  | refusalFailed bracket =>
      exact bracket.cases (P := fun b => Answered (.arrived true :: (b ++ [Mark.failed])))
        (by decide)
  | aborted served => obtain ⟨rfl | rfl⟩ := served <;> decide
  | abortFailed bracket =>
      exact bracket.cases (P := fun b => Answered (aborting ++ (b ++ [Mark.failed]))) (by decide)
  | left => decide
  | served store served => obtain ⟨rfl | rfl⟩ := served <;> revert store <;> decide
  | abandoned begun =>
      exact begun.cases (P := fun b => Answered (executing ++ (b ++ [Mark.abandoned]))) (by decide)
        (by decide)
  | died begun last =>
      obtain (rfl | rfl) | rfl := last
      · exact begun.cases
          (P := fun b => Answered (executing ++ (b ++ [Mark.failed, .reply .executeReply])))
          (by decide) (by decide)
      · exact begun.cases (P := fun b => Answered (executing ++ (b ++ [Mark.failed, .closed])))
          (by decide) (by decide)
      · exact begun.cases (P := fun b => Answered (executing ++ (b ++ [Mark.failed, .unsent])))
          (by decide) (by decide)
  | ignored => simp at hm
  | informed informed => exact absurd hm (by simp [informed.not_arrived])
  | informFailed informing => exact absurd hm (by simp [informing.not_arrived])

/-- What is said of every request: its statuses, and that it enters and leaves the queue and starts
once at most. -/
structure Tidy (m : List Mark) : Prop where
  status : statuses m = [] ∨ statuses m = [.busy] ∨ statuses m = [.busy, .idle]
  enters : m.countP Mark.enters ≤ 1
  leaves : m.countP Mark.leaves ≤ 1
  starts : m.countP Mark.isStart ≤ 1

instance : Decidable (Tidy m) :=
  decidable_of_iff
    ((statuses m = [] ∨ statuses m = [.busy] ∨ statuses m = [.busy, .idle]) ∧
      m.countP Mark.enters ≤ 1 ∧ m.countP Mark.leaves ≤ 1 ∧ m.countP Mark.isStart ≤ 1)
    ⟨fun ⟨h₁, h₂, h₃, h₄⟩ => ⟨h₁, h₂, h₃, h₄⟩, fun h => ⟨h.1, h.2, h.3, h.4⟩⟩

/-- What is left of a request once the names of its replies are. -/
def Mark.unnamed : Mark → Mark
  | .reply _ => .reply .executeReply
  | m => m

/-- Tidiness is not about the names of replies. -/
lemma tidy_unnamed (h : Tidy (m.map Mark.unnamed)) : Tidy m := by
  have hstatus : statuses (m.map Mark.unnamed) = statuses m := by
    unfold statuses
    rw [List.filterMap_map]
    congr 1
    funext a
    cases a <;> rfl
  have hcount : ∀ P : Mark → Bool, (∀ a, P a.unnamed = P a) →
      (m.map Mark.unnamed).countP P = m.countP P := by
    intro P hP
    rw [List.countP_map]
    congr 1
    funext a
    exact hP a
  constructor
  · rw [← hstatus]
    exact h.status
  · rw [← hcount _ fun a => by cases a <;> rfl]
    exact h.enters
  · rw [← hcount _ fun a => by cases a <;> rfl]
    exact h.leaves
  · rw [← hcount _ fun a => by cases a <;> rfl]
    exact h.starts

/-- How far the answer to another request came, the names of replies left aside. -/
def informings : List (List Mark) :=
  [[], [.busy], [.busy, .reply .executeReply], [.busy, .closed],
    [.busy, .reply .executeReply, .idle], [.busy, .closed, .idle], [.reply .executeReply], [.closed]]

lemma Informing.mem (h : Informing m) : m.map Mark.unnamed ∈ informings := by
  cases h with
  | bracket bracket =>
      cases bracket with
      | none => simp [informings]
      | busy => simp [informings, Mark.unnamed]
      | answered answers => obtain rfl | rfl := answers <;> simp [informings, Mark.unnamed]
      | idle answers => obtain rfl | rfl := answers <;> simp [informings, Mark.unnamed]
  | plain answers => obtain rfl | rfl := answers <;> simp [informings, Mark.unnamed]

lemma Informing.tidy (h : Informing m) :
    Tidy (.arrived false :: m) ∧ Tidy (.arrived false :: (m ++ [.failed])) := by
  have hall : ∀ l ∈ informings,
      Tidy (.arrived false :: l) ∧ Tidy (.arrived false :: (l ++ [Mark.failed])) := by decide
  obtain ⟨hm, hfailed⟩ := hall _ h.mem
  refine ⟨tidy_unnamed hm, tidy_unnamed ?_⟩
  rw [List.map_cons, List.map_append]
  exact hfailed

/-- What is over is tidy. -/
lemma Course.tidy (h : Course m) : Tidy m := by
  cases h with
  | refused served => obtain ⟨rfl | rfl⟩ := served <;> decide
  | refusalFailed bracket =>
      exact bracket.cases (P := fun b => Tidy (.arrived true :: (b ++ [Mark.failed]))) (by decide)
  | aborted served => obtain ⟨rfl | rfl⟩ := served <;> decide
  | abortFailed bracket =>
      exact bracket.cases (P := fun b => Tidy (aborting ++ (b ++ [Mark.failed]))) (by decide)
  | left => decide
  | served store served => obtain ⟨rfl | rfl⟩ := served <;> revert store <;> decide
  | abandoned begun =>
      exact begun.cases (P := fun b => Tidy (executing ++ (b ++ [Mark.abandoned]))) (by decide)
        (by decide)
  | died begun last =>
      obtain (rfl | rfl) | rfl := last
      · exact begun.cases
          (P := fun b => Tidy (executing ++ (b ++ [Mark.failed, .reply .executeReply])))
          (by decide) (by decide)
      · exact begun.cases (P := fun b => Tidy (executing ++ (b ++ [Mark.failed, .closed])))
          (by decide) (by decide)
      · exact begun.cases (P := fun b => Tidy (executing ++ (b ++ [Mark.failed, .unsent])))
          (by decide) (by decide)
  | ignored => decide
  | informed informed => exact informed.informing.tidy.1
  | informFailed informing => exact informing.tidy.2

/-- What is not over is tidy. -/
lemma Due.tidy {d : Due} (h : d.course m) : Tidy m := by
  cases d with
  | refusal => obtain rfl := h; decide
  | info => obtain rfl := h; decide
  | pending => obtain rfl := h; decide
  | aborted => obtain rfl := h; decide
  | popped => obtain rfl := h; decide
  | started => obtain ⟨store, rfl⟩ := h; revert store; decide
  | busy => obtain ⟨store, rfl⟩ := h; revert store; decide
  | answered => obtain ⟨store, a, rfl | rfl, rfl⟩ := h <;> revert store <;> decide
  | idle => obtain ⟨store, b, ⟨rfl | rfl⟩, rfl⟩ := h <;> revert store <;> decide
  | failed =>
      obtain ⟨b, hb, rfl⟩ := h
      exact hb.cases (P := fun b => Tidy (executing ++ (b ++ [Mark.failed]))) (by decide)
        (by decide)

/-- A request that is over and was not disturbed has no busy status alone. -/
lemma Course.idle (h : Course m) (hm : Undisturbed m) : statuses m ≠ [.busy] := by
  cases h with
  | refused served => obtain ⟨rfl | rfl⟩ := served <;> decide
  | aborted served => obtain ⟨rfl | rfl⟩ := served <;> decide
  | served store served => obtain ⟨rfl | rfl⟩ := served <;> revert store <;> decide
  | ignored => decide
  | informed informed =>
      cases informed with
      | bracketed served =>
          obtain ⟨rfl | rfl⟩ := served
          · exact show ([.busy, .idle] : List Status) ≠ [.busy] by decide
          · decide
      | plain answers =>
          obtain rfl | rfl := answers
          · exact show ([] : List Status) ≠ [.busy] by decide
          · decide
  | _ => simp [Undisturbed] at hm

/-! ## The invariant keeps them -/

lemma Inv.tidy (h : Inv k) (r : Nat) : Tidy (k.about r) := by
  by_cases hlt : r < k.next
  · by_cases hmem : r ∈ k.waiting
    · obtain ⟨⟨r', d⟩, hd, rfl⟩ := List.mem_map.1 hmem
      exact Due.tidy (h.base.ledger.due r' d hd).2
    · exact Course.tidy (h.base.ledger.ended r hlt hmem)
  · rw [show k.about r = [] from h.base.ledger.fresh r (Nat.le_of_not_lt hlt)]
    decide

lemma mem_numbers : r ∈ numbers kind log ↔ ∃ m, (r, m) ∈ log ∧ kind m = true := by
  simp [numbers]

/-- How often a request occurs in a list of numbers. -/
lemma count_numbers : (numbers kind log).count r = (Ledger.about r log).countP kind := by
  induction log with
  | nil => rfl
  | cons e log ih =>
      obtain ⟨r', m⟩ := e
      unfold numbers Ledger.about at *
      by_cases hr : r' = r
      · subst hr
        by_cases hm : kind m = true
        · simp [hm, ih]
        · simp [hm, ih]
      · by_cases hm : kind m = true
        · simp [hm, hr, ih]
        · simp [hm, hr, ih]

/-- A narrower kind of marks is in the same order. -/
lemma numbers_sublist {kind' : Mark → Bool} (h : ∀ m, kind m = true → kind' m = true) :
    (numbers kind log).Sublist (numbers kind' log) :=
  (List.monotone_filter_right log fun e he => h e.2 he).map _

lemma Inv.inOrder (h : Inv k) : InOrder (marks k.out.log) where
  once := List.nodup_iff_count_le_one.2 fun r => by
    rw [count_numbers]
    exact (h.tidy r).enters
  order := by
    rw [h.base.turns.order]
    refine (numbers_sublist ?_).trans (List.sublist_append_left _ _)
    intro m hm
    cases m with
    | executed => rfl
    | _ => cases hm
  aborted r hr hr' := by
    obtain ⟨m, hm, hab⟩ := mem_numbers.1 hr
    obtain ⟨m', hm', hex⟩ := mem_numbers.1 hr'
    have hab : m = .aborted := by cases m <;> first | rfl | cases hab
    have hex : m' = .executed := by cases m' <;> first | rfl | cases hex
    subst hab hex
    have htwo : 2 ≤ (k.about r).countP Mark.leaves := by
      have hsub : [Mark.aborted, .executed].Subperm (k.about r) := by
        refine List.Nodup.subperm (by decide) ?_
        intro m hmem
        obtain rfl | rfl : m = .aborted ∨ m = .executed := by simpa using hmem
        · exact Ledger.mem_about.2 hm
        · exact Ledger.mem_about.2 hm'
      exact hsub.countP_le Mark.leaves
    have := (h.tidy r).leaves
    omega

lemma run_total (hwaits : ¬ k.waits) (o : Calls) : ∃ t, run o k = some t := by
  unfold State.waits at hwaits
  unfold run
  cases hstage : k.stage with
  | head =>
      rw [hstage] at hwaits
      dsimp only at hwaits ⊢
      split_ifs with hstop
      · exact ⟨_, rfl⟩
      · cases hpending : k.pending with
        | nil => exact absurd ⟨by simpa using hstop, hpending⟩ hwaits
        | cons job rest => exact ⟨_, rfl⟩
  | operate job count =>
      dsimp only
      split_ifs
      · exact ⟨_, rfl⟩
      · exact ⟨_, rfl⟩
  | operating job count op =>
      rw [hstage] at hwaits
      obtain ⟨reply, hreply⟩ := Option.ne_none_iff_exists'.1 hwaits
      simp only [hreply, Option.map_some]
      exact ⟨_, rfl⟩
  | settle S =>
      dsimp only
      split_ifs
      · exact ⟨_, rfl⟩
      · exact ⟨_, rfl⟩
  | record S aborted =>
      dsimp only
      split
      · exact ⟨_, rfl⟩
      · exact ⟨_, rfl⟩
  | refuse S aborted =>
      cases aborted with
      | nil => exact ⟨_, rfl⟩
      | cons job rest =>
          dsimp only
          split
          · exact ⟨_, rfl⟩
          · exact ⟨_, rfl⟩
  | ack S =>
      dsimp only
      split_ifs
      · exact ⟨_, rfl⟩
      · exact ⟨_, rfl⟩
  | died job reply e =>
      dsimp only
      split
      · exact ⟨_, rfl⟩
      · exact ⟨_, rfl⟩
  | drain aborted failure =>
      cases aborted with
      | nil => exact ⟨_, rfl⟩
      | cons job rest =>
          dsimp only
          split
          · exact ⟨_, rfl⟩
          · exact ⟨_, rfl⟩
  | finished failure =>
      rw [hstage] at hwaits
      exact absurd trivial hwaits
  | _ => exact ⟨_, rfl⟩

lemma Inv.moves (h : Inv k) : Moves rune k where
  handlers i v hv hdue o := by
    cases v with
    | load p silent name text =>
        simp only [next, hv, serve, Option.bind_some, Option.map_some]
        exact ⟨_, rfl⟩
    | refuse p silent name text count =>
        simp only [next, hv, serve, Option.bind_some, Option.map_some]
        exact ⟨_, rfl⟩
    | _ => cases hdue
  loop hwaits o := run_total hwaits o
  worker job count op hstage e := by
    simp only [next, workerFails, hstage]
    exact ⟨_, rfl⟩
  finished failure hstage :=
    ⟨h.drained (by rw [hstage]; rfl), h.retired (by rw [hstage]; rfl)⟩

/-- **One reply a request**, in every run of the kernel. -/
theorem requests_served (h : (machine rune).Reachable k) : Serves rune k := by
  have hinv := reachable_inv h
  have hover : ∀ r, r ∉ k.waiting → k.about r ≠ [] → Course (k.about r) := by
    intro r hr hne
    refine hinv.base.ledger.ended r ?_ hr
    by_contra hlt
    exact hne (hinv.base.ledger.fresh r (Nat.le_of_not_lt hlt))
  refine ⟨?_, hinv.base.ledger.nodup, fun r => (hinv.tidy r).status, ?_, hinv.inOrder,
    hinv.base.turns.count.symm, fun r => (hinv.tidy r).starts, hinv.moves⟩
  · intro r hr
    by_cases hmem : r ∈ k.waiting
    · exact .inl hmem
    · exact .inr (Course.answered (hover r hmem (List.ne_nil_of_mem hr)) hr)
  · intro r hmem hm
    by_cases hnil : k.about r = []
    · rw [hnil]
      decide
    · exact Course.idle (hover r hmem hnil) hm

/-! ## Runs -/

/-- A list of accepted events leads to a state with a property that its end can be checked for. -/
lemma reached (rune : String) (events : List Event) (P : State → Bool)
    (h : ((machine rune).exec .new events).any P = true) :
    ∃ k, (machine rune).Reachable k ∧ P k = true := by
  cases hexec : (machine rune).exec .new events with
  | none =>
      rw [hexec] at h
      cases h
  | some k =>
      rw [hexec] at h
      exact ⟨k, Machine.Reachable.exec rfl hexec, h⟩

/-- A request to execute a source. -/
def sample : Request :=
  ⟨[], [], "execute_request", .obj [("code", .str "1")], 100⟩

/-- A message of the worker about its first operation. -/
def message (kind : String) (fields : List (String × Json)) : Event :=
  .control (.obj ([("id", .nat 1), ("type", .str kind), ("epoch", .nat 1), ("input", .nat 1)] ++ fields))

/-- A request is executed as far as the worker. -/
def begun : List Event :=
  [.arrive .shell 0 sample, .run .ok, .run .ok, .run .ok, .run .ok, .run .ok]

/-- The worker settles it and loses its state. -/
def losing : List Event :=
  begun ++ [message "armed" [],
    message "settled" [("text_plain", .null), ("state_lost", .bool true),
      ("failure", .obj [("category", .str "runtime"), ("diagnostic", .str "cleanup failed")])]] ++
    List.replicate 10 (.run .ok)

/-- The worker dies while it executes it. -/
def dying : List Event := begun ++ [.workerFails "worker stream closed", .run .ok, .run .ok]

/-- A request to shut down. -/
def goodbye : Request := ⟨[], [], "shutdown_request", .obj [], 100⟩

/-- The kernel is shut down while the worker executes it, and the worker does not settle in time. -/
def leaving : List Event :=
  begun ++ [.arrive .control 1 goodbye, .serve 0 .ok, .serve 0 .ok, .serve 0 .ok, .notice, .abandon]

/-- The promises at the end of a run in which the worker loses its state. -/
theorem requests_served_losing : ∃ k, Serves "" k ∧ 0 ∉ k.waiting ∧ .failed ∈ k.about 0 := by
  obtain ⟨k, hk, hP⟩ := reached "" losing
    (fun k => decide (0 ∉ k.waiting ∧ .failed ∈ k.about 0)) (by decide +kernel)
  exact ⟨k, requests_served hk, of_decide_eq_true hP⟩

/-- A request whose connection is open is not always answered once: it is answered twice when the
worker loses its state in an operation that it settles, and not at all when the kernel is shut down
while it is executed.  And a busy status is not always followed by an idle one. -/
theorem reply_not_once :
    (¬ ∀ k, (machine "").Reachable k → ∀ r, .arrived true ∈ k.about r → r ∉ k.waiting →
      .closed ∉ k.about r → (k.about r).count (.reply .executeReply) ≤ 1) ∧
    (¬ ∀ k, (machine "").Reachable k → ∀ r, .arrived true ∈ k.about r → r ∉ k.waiting →
      .closed ∉ k.about r → 1 ≤ (k.about r).count (.reply .executeReply)) ∧
    ¬ ∀ k, (machine "").Reachable k → ∀ r, .arrived true ∈ k.about r → r ∉ k.waiting →
      (k.about r).count .busy = (k.about r).count .idle := by
  refine ⟨?_, ?_, ?_⟩
  · intro h
    obtain ⟨k, hk, hP⟩ := reached "" losing
      (fun k => decide (.arrived true ∈ k.about 0 ∧ 0 ∉ k.waiting ∧ .closed ∉ k.about 0 ∧
        ¬ (k.about 0).count (.reply .executeReply) ≤ 1)) (by decide +kernel)
    obtain ⟨harrived, hover, hopen, htwice⟩ := of_decide_eq_true hP
    exact htwice (h k hk 0 harrived hover hopen)
  · intro h
    obtain ⟨k, hk, hP⟩ := reached "" leaving
      (fun k => decide (.arrived true ∈ k.about 0 ∧ 0 ∉ k.waiting ∧ .closed ∉ k.about 0 ∧
        ¬ 1 ≤ (k.about 0).count (.reply .executeReply))) (by decide +kernel)
    obtain ⟨harrived, hover, hopen, hnone⟩ := of_decide_eq_true hP
    exact hnone (h k hk 0 harrived hover hopen)
  · intro h
    obtain ⟨k, hk, hP⟩ := reached "" dying
      (fun k => decide (.arrived true ∈ k.about 0 ∧ 0 ∉ k.waiting ∧
        (k.about 0).count .busy ≠ (k.about 0).count .idle)) (by decide +kernel)
    obtain ⟨harrived, hover, hne⟩ := of_decide_eq_true hP
    exact hne (h k hk 0 harrived hover)

end Jupyter.Kernel

end Rnx
