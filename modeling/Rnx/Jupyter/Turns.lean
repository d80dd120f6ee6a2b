import Rnx.Jupyter.Courses

/-!
# The requests of a running kernel

Every step of a handler or of the loop keeps the ledger of the requests: it writes about a request
what its place in a course allows.  It also keeps their turns: requests leave the queue in the order
they were admitted to it, and the counter counts those that were started to be stored.
-/

namespace Rnx

open ErrState

namespace Jupyter.Kernel

/-! ## What is owed -/

/-- The numbers of jobs. -/
def arrivals (jobs : List Job) : List Nat := jobs.map (·.parent.arrival)

/-- Jobs that are all at one place. -/
def owed (jobs : List Job) (d : Due) : List (Nat × Due) := (arrivals jobs).map (·, d)

/-- The request a handler serves, and its place. -/
def Serving.due : Serving → Nat × Due
  | .load p .. | .refuse p .. => (p.arrival, .refusal)
  | .shellInfo p | .controlInfo p | .interrupt p | .retire p _ | .stop p _ | .farewell p _ =>
      (p.arrival, .info)

/-- The requests the loop holds. -/
def Stage.dues : Stage → List (Nat × Due)
  | .head | .closing _ | .clean _ | .finished _ => []
  | .popped job => [(job.parent.arrival, .popped)]
  | .busy job _ => [(job.parent.arrival, .started)]
  | .entry job _ | .operate job _ | .operating job _ _ => [(job.parent.arrival, .busy)]
  | .settle S => [(S.job.parent.arrival, .busy)]
  | .record S aborted | .shown S aborted _ _ | .reply S aborted _ _ =>
      (S.job.parent.arrival, .busy) :: owed aborted .aborted
  | .idle S aborted => (S.job.parent.arrival, .answered) :: owed aborted .aborted
  | .refuse S aborted => (S.job.parent.arrival, .idle) :: owed aborted .aborted
  | .ack S => [(S.job.parent.arrival, .idle)]
  | .failed job _ | .died job _ _ => [(job.parent.arrival, .failed)]
  | .drain aborted _ => owed aborted .aborted

/-- The requests in the queue and with the handlers. -/
def State.rest (k : State) : List (Nat × Due) := owed k.pending .pending ++ k.serving.map (·.due)

/-- The requests that are not over. -/
def State.dues (k : State) : List (Nat × Due) := k.stage.dues ++ k.rest

/-! ## Turns -/

/-- The request enters the queue. -/
def Mark.enters : Mark → Bool
  | .admitted => true
  | _ => false

/-- The request leaves the queue. -/
def Mark.leaves : Mark → Bool
  | .executed | .aborted => true
  | _ => false

/-- The request is started and stored. -/
def Mark.counts : Mark → Bool
  | .started store => store
  | _ => false

/-- The mark is none of these. -/
def Mark.plain (m : Mark) : Bool := !m.enters && !m.leaves && !m.counts

/-- The requests that have a mark of a kind, in order. -/
def numbers (kind : Mark → Bool) (log : List (Nat × Mark)) : List Nat :=
  (log.filter fun e => kind e.2).map (·.1)

/-- Requests leave the queue in the order they entered it, and the counter counts. -/
structure Turns (log : List (Nat × Mark)) (pending : List Nat) (count : Nat) : Prop where
  order : numbers Mark.enters log = numbers Mark.leaves log ++ pending
  count : log.countP (fun e => e.2.counts) = count

variable {log new : List (Nat × Mark)} {pending : List Nat} {count r : Nat}

lemma numbers_append (kind : Mark → Bool) (log new : List (Nat × Mark)) :
    numbers kind (log ++ new) = numbers kind log ++ numbers kind new := by
  simp [numbers]

lemma numbers_none {kind : Mark → Bool} (h : ∀ e ∈ new, kind e.2 = false) :
    numbers kind new = [] := by
  rw [numbers, List.map_eq_nil_iff, List.filter_eq_nil_iff]
  intro e he
  simp [h e he]

/-- One mark, written about each of several requests. -/
lemma numbers_each (kind : Mark → Bool) (rs : List Nat) (mark : Mark) :
    numbers kind (rs.map (·, mark)) = if kind mark = true then rs else [] := by
  induction rs with
  | nil => simp [numbers]
  | cons r rs ih =>
      unfold numbers at *
      split_ifs at ih ⊢ with h
      · simpa [h] using ih
      · simp [h]

lemma Turns.start : Turns [] [] 0 := ⟨rfl, rfl⟩

/-- Plain marks change nothing. -/
lemma Turns.plain (h : Turns log pending count) (hnew : ∀ e ∈ new, e.2.plain = true) :
    Turns (log ++ new) pending count := by
  have hnone : ∀ e ∈ new, e.2.enters = false ∧ e.2.leaves = false ∧ e.2.counts = false := by
    intro e he
    simpa [Mark.plain, and_assoc] using hnew e he
  constructor
  · rw [numbers_append, numbers_append, numbers_none fun e he => (hnone e he).1,
      numbers_none fun e he => (hnone e he).2.1, List.append_nil, List.append_nil, h.order]
  · rw [List.countP_append, h.count, List.countP_eq_zero.2, Nat.add_zero]
    intro e he
    simp [(hnone e he).2.2]

lemma Turns.admitting (h : Turns log pending count) :
    Turns (log ++ [(r, .admitted)]) (pending ++ [r]) count := by
  constructor
  · rw [numbers_append, numbers_append, h.order]
    simp [numbers, Mark.enters, Mark.leaves]
  · rw [List.countP_append, h.count]
    rfl

lemma Turns.pop (h : Turns log (r :: pending) count) :
    Turns (log ++ [(r, .executed)]) pending count := by
  constructor
  · rw [numbers_append, numbers_append, h.order]
    simp [numbers, Mark.enters, Mark.leaves]
  · rw [List.countP_append, h.count]
    rfl

lemma Turns.abort (h : Turns log pending count) :
    Turns (log ++ pending.map (·, .aborted)) [] count := by
  constructor
  · rw [numbers_append, numbers_append, h.order, numbers_each, numbers_each,
      if_neg (by decide), if_pos (by decide), List.append_nil]
  · rw [List.countP_append, h.count, List.countP_eq_zero.2, Nat.add_zero]
    simp [Mark.counts]

lemma Turns.started (h : Turns log pending count) (store : Bool) :
    Turns (log ++ [(r, .started store)]) pending (if store = true then count + 1 else count) := by
  constructor
  · rw [numbers_append, numbers_append, h.order]
    simp [numbers, Mark.enters, Mark.leaves]
  · rw [List.countP_append, h.count]
    cases store <;> rfl

/-! ## The invariant -/

/-- The stages after the end of admission. -/
def Stage.retired : Stage → Bool
  | .clean _ | .drain _ _ | .finished _ => true
  | _ => false

/-- The stages after the queue was taken for the last time. -/
def Stage.drained : Stage → Bool
  | .drain _ _ | .finished _ => true
  | _ => false

/-- The requests and their turns, the loop holding the given ones. -/
structure Base (k : State) (dues : List (Nat × Due)) : Prop where
  ledger : Ledger.Sound Due.course Course k.next (marks k.out.log) (dues ++ k.rest)
  turns : Turns (marks k.out.log) (arrivals k.pending) k.count

/-- What holds in every state of a run. -/
structure Inv (k : State) : Prop where
  base : Base k k.stage.dues
  retired : k.stage.retired = true → k.retiring = true
  drained : k.stage.drained = true → k.pending = []

variable {k t : State} {dues : List (Nat × Due)} {d d' : Due} {p : Parent} {out : Output}
  {ms : List Mark} {job : Job} {aborted : List Job} {stage : Stage} {e : String} {o : Calls}
  {m : ErrState String Output Unit} {good bad : List Mark → Prop} {rune : String}

lemma new_inv : Inv .new where
  base := ⟨Ledger.Sound.start _ _, Turns.start⟩
  retired h := by cases h
  drained h := by cases h

lemma plain_map (hplain : ∀ m ∈ ms, m.plain = true) :
    ∀ e ∈ ms.map (r, ·), e.2.plain = true := by
  intro e he
  obtain ⟨m, hm, rfl⟩ := List.mem_map.1 he
  exact hplain m hm

/-- The loop goes on while admission has not ended. -/
lemma Base.goOn (h : Base k dues) (hdues : stage.dues = dues) (hstage : stage.retired = false) :
    Inv (k.goOn stage) where
  base := ⟨by rw [show (k.goOn stage).stage.dues = dues from hdues]; exact h.ledger, h.turns⟩
  retired hr := by
    rw [show (k.goOn stage).stage.retired = false from hstage] at hr
    cases hr
  drained hr := by
    have : stage.drained = false := by
      cases stage <;> first | rfl | cases hstage
    rw [show (k.goOn stage).stage.drained = false from this] at hr
    cases hr

/-- Plain marks are written about the request in front, and its place changes. -/
lemma Base.advances (h : Base k ((p.arrival, d) :: dues)) (hw : Wrote p k.out out ms)
    (hplain : ∀ m ∈ ms, m.plain = true) (hd : ∀ l, d.course l → d'.course (l ++ ms)) :
    Base { k with out := out } ((p.arrival, d') :: dues) := by
  constructor
  · change Ledger.Sound _ _ _ (marks out.log) _
    rw [hw]
    exact h.ledger.advances hd
  · change Turns (marks out.log) _ _
    rw [hw]
    exact h.turns.plain (plain_map hplain)

/-- Plain marks are written about the request in front, and it is over. -/
lemma Base.closes (h : Base k ((p.arrival, d) :: dues)) (hw : Wrote p k.out out ms)
    (hplain : ∀ m ∈ ms, m.plain = true) (hd : ∀ l, d.course l → Course (l ++ ms)) :
    Base { k with out := out } dues := by
  constructor
  · change Ledger.Sound _ _ _ (marks out.log) _
    rw [hw]
    exact h.ledger.closes hd
  · change Turns (marks out.log) _ _
    rw [hw]
    exact h.turns.plain (plain_map hplain)

/-- The request in front is over with nothing more written about it. -/
lemma Base.ends (h : Base k ((p.arrival, d) :: dues)) (hd : ∀ l, d.course l → Course l) :
    Base k dues := by
  have hnone : Wrote p k.out k.out [] := Wrote.same rfl
  refine h.closes hnone (fun m hm => by cases hm) fun l hl => ?_
  rw [List.append_nil]
  exact hd l hl

/-- A computation that writes nothing about a request leaves all places alone. -/
lemma Base.quiet (h : Base k dues) (hw : Wrote p k.out out []) : Base { k with out := out } dues := by
  have hlog : marks out.log = marks k.out.log := by
    rw [hw, List.map_nil, List.append_nil]
  constructor
  · change Ledger.Sound _ _ _ (marks out.log) _
    rw [hlog]
    exact h.ledger
  · change Turns (marks out.log) _ _
    rw [hlog]
    exact h.turns

/-- An entry with a mark. -/
lemma wrote_log (k : State) {entry : Entry} {mark : Mark}
    (he : entry.mark = some (p.arrival, mark)) : Wrote p k.out (k.log entry).out [mark] := by
  change marks (k.out.log ++ [entry]) = _
  rw [marks_append]
  simp [marks, he]

/-- An entry with one mark, for each of several jobs. -/
lemma marks_each {entry : Parent → Entry} {mark : Mark}
    (he : ∀ p, (entry p).mark = some (p.arrival, mark)) (jobs : List Job) :
    marks (jobs.map fun job => entry job.parent) = (arrivals jobs).map (·, mark) := by
  induction jobs with
  | nil => rfl
  | cons job jobs ih =>
      unfold marks arrivals at *
      rw [List.map_cons, List.filterMap_cons_some (he _), ih, List.map_cons, List.map_cons]

/-- The jobs a failed execution leaves behind are over. -/
lemma Base.leaves (h : Base k (owed aborted .aborted ++ dues)) :
    Base (k.logEach .left aborted) dues := by
  have hlog : marks (k.logEach .left aborted).out.log =
      marks k.out.log ++ (arrivals aborted).map (·, .left) := by
    change marks (k.out.log ++ aborted.map fun job => .left job.parent) = _
    rw [marks_append, marks_each fun _ => rfl]
  constructor
  · rw [hlog]
    have hsound : Ledger.Sound Due.course Course k.next (marks k.out.log)
        ((arrivals aborted).map (·, .aborted) ++ (dues ++ k.rest)) := by
      rw [← List.append_assoc]
      exact h.ledger
    refine hsound.closes_each ?_
    rintro _ rfl
    exact .left
  · rw [hlog]
    refine h.turns.plain ?_
    intro e he
    obtain ⟨r, -, rfl⟩ := List.mem_map.1 he
    rfl

lemma Base.swap {x : Nat × Due} {xs : List (Nat × Due)} (h : Base k (x :: (xs ++ dues))) :
    Base k (xs ++ x :: dues) :=
  ⟨h.ledger.perm (List.perm_middle.symm.append_right _), h.turns⟩

/-! ## The end of an execution -/

lemma finish_ok (h : Base k [(job.parent.arrival, .idle)]) : Inv (k.finish job [] (.ok ())) := by
  have hover : Base k [] := by
    refine h.ends ?_
    rintro _ ⟨store, b, hb, rfl⟩
    exact .served store hb
  have hover : Base (k.release [job]) [] := ⟨hover.ledger, hover.turns⟩
  unfold State.finish
  dsimp only
  split_ifs
  · exact hover.goOn rfl rfl
  · exact hover.goOn rfl rfl

lemma finish_error (h : Base k ((job.parent.arrival, d) :: owed aborted .aborted))
    (hd : d.Executing) : Inv (k.finish job aborted (.error e)) := by
  have hleft : Base (k.logEach .left aborted) [(job.parent.arrival, d)] := by
    have hfront : Base k ((job.parent.arrival, d) :: (owed aborted .aborted ++ [])) := by
      rwa [List.append_nil]
    exact hfront.swap.leaves
  unfold State.finish
  dsimp only
  split_ifs
  · have hover : Base ((k.logEach .left aborted).log (.abandoned job.parent)) [] := by
      refine Base.closes hleft (wrote_log _ rfl) (fun m hm => ?_) ?_
      · rw [List.mem_singleton.1 hm]
        rfl
      · intro l hl
        obtain ⟨b, hb, rfl⟩ := hd.begun hl
        rw [List.append_assoc]
        exact .abandoned hb
    exact Base.goOn (k := ((k.logEach .left aborted).log (.abandoned job.parent)).release
      (job :: aborted)) ⟨hover.ledger, hover.turns⟩ rfl rfl
  · have hfailed : Base ((k.logEach .left aborted).log (.failed job.parent e))
        [(job.parent.arrival, .failed)] := by
      refine Base.advances hleft (wrote_log _ rfl) (fun m hm => ?_) ?_
      · rw [List.mem_singleton.1 hm]
        rfl
      · intro l hl
        obtain ⟨b, hb, rfl⟩ := hd.begun hl
        exact ⟨b, hb, List.append_assoc _ _ _⟩
    exact Base.goOn (k := ((k.logEach .left aborted).log (.failed job.parent e)).release aborted)
      ⟨hfailed.ledger, hfailed.turns⟩ rfl rfl

/-- `finish_error` where nothing was aborted. -/
lemma finish_alone (h : Base k [(job.parent.arrival, d)]) (hd : d.Executing) :
    Inv (k.finish job [] (.error e)) :=
  finish_error h hd

/-- A computation of `execute` that writes plain marks, or none when it fails. -/
lemma proceed_inv (d' : Due) (h : Base k ((job.parent.arrival, d) :: owed aborted .aborted))
    (hd : d.Executing) (hm : Writes job.parent m good (· = []))
    (hgood : ∀ ms, good ms → (∀ m ∈ ms, m.plain = true) ∧ ∀ l, d.course l → d'.course (l ++ ms))
    (hdues : stage.dues = (job.parent.arrival, d') :: owed aborted .aborted)
    (hstage : stage.retired = false) : Inv (k.proceed job aborted stage (m k.out)) := by
  have hwp := hm k.out
  unfold wp at hwp
  cases hrun : m k.out with
  | mk result out =>
      rw [hrun] at hwp
      cases result with
      | ok _ =>
          obtain ⟨ms, hms, hw⟩ := hwp
          obtain ⟨hplain, hcourse⟩ := hgood ms hms
          exact (h.advances hw hplain hcourse).goOn hdues hstage
      | error e =>
          obtain ⟨_, rfl, hw⟩ := hwp
          exact finish_error (h.quiet hw) hd

/-- A computation of `execute` that writes no marks. -/
lemma proceed_quiet (h : Base k ((job.parent.arrival, d) :: owed aborted .aborted))
    (hd : d.Executing) (hm : Writes job.parent m (· = []) (· = []))
    (hdues : stage.dues = (job.parent.arrival, d) :: owed aborted .aborted)
    (hstage : stage.retired = false) : Inv (k.proceed job aborted stage (m k.out)) := by
  refine proceed_inv d h hd hm ?_ hdues hstage
  rintro _ rfl
  refine ⟨fun m hm => (by cases hm), fun l hl => ?_⟩
  rwa [List.append_nil]

/-- `proceed_quiet` in the operation, where nothing was aborted. -/
lemma proceed_alone (h : Base k [(job.parent.arrival, .busy)])
    (hm : Writes job.parent m (· = []) (· = []))
    (hstage : stage.dues = [(job.parent.arrival, .busy)] ∧ stage.retired = false) :
    Inv (k.proceed job [] stage (m k.out)) :=
  proceed_quiet h .busy hm hstage.1 hstage.2

end Jupyter.Kernel

end Rnx
