import Rnx.Jupyter.Turns

/-!
# The steps of the kernel

Each step of the loop and of the handlers keeps the invariant.
-/

namespace Rnx

open ErrState

namespace Jupyter.Kernel

variable {k t : State} {dues : List (Nat × Due)} {d d' : Due} {p : Parent} {out : Output}
  {ms : List Mark} {job : Job} {jobs aborted : List Job} {stage : Stage} {e : String} {o : Calls}
  {rune : String} {count : Nat} {S : Settling} {op : Operation}

/-! ## Executing -/

/-- What a stage of the loop owes is what the invariant says. -/
lemma Inv.at (h : Inv k) (hstage : k.stage = stage) (hdues : stage.dues = dues) : Base k dues := by
  have hbase := h.base
  rwa [hstage, hdues] at hbase

lemma start_inv (h : Base k [(job.parent.arrival, .popped)]) : Inv (k.start job) := by
  have hstart : ∀ (store : Bool) (c : Nat) (b : Book),
      c = (if store = true then k.count + 1 else k.count) →
      Base ({ k with count := c, book := b }.log (.started job.parent store))
        [(job.parent.arrival, .started)] := by
    rintro store c b rfl
    have hlog : marks ({ k with
          count := if store = true then k.count + 1 else k.count, book := b }.log
        (.started job.parent store)).out.log =
        marks k.out.log ++ [Mark.started store].map (job.parent.arrival, ·) :=
      wrote_log { k with count := if store = true then k.count + 1 else k.count, book := b } rfl
    constructor
    · rw [hlog]
      refine h.ledger.advances ?_
      rintro _ rfl
      exact ⟨store, rfl⟩
    · rw [hlog]
      exact h.turns.started store
  unfold State.start
  split_ifs with hstore hcount
  · exact (hstart true _ _ rfl).goOn rfl rfl
  · exact finish_alone h .popped
  · exact (hstart false _ k.book rfl).goOn rfl rfl

lemma entered_dues (job : Job) (count : Nat) :
    (entered job count).dues = [(job.parent.arrival, .busy)] ∧
      (entered job count).retired = false := by
  unfold entered
  split_ifs
  · exact ⟨rfl, rfl⟩
  · exact ⟨rfl, rfl⟩

lemma enter_inv (h : Base k [(job.parent.arrival, .busy)]) : Inv (k.enter o job count) := by
  obtain ⟨hdues, hretired⟩ := entered_dues job count
  unfold State.enter
  split_ifs
  · exact h.goOn rfl rfl
  · exact h.goOn hdues hretired
  · exact proceed_quiet h .busy (publishLocked_plain (fun state h => by cases h) _ _ _ _) hdues
      hretired

/-- The queue is taken to be refused. -/
lemma Base.takePending (h : Base k dues) : Base k.takePending (dues ++ owed k.pending .aborted) := by
  have hlog : marks k.takePending.out.log =
      marks k.out.log ++ (arrivals k.pending).map (·, .aborted) := by
    change marks (k.out.log ++ k.pending.map fun job => .aborted job.parent) = _
    rw [marks_append, marks_each fun _ => rfl]
  constructor
  · rw [hlog]
    have hsound : Ledger.Sound Due.course Course k.next (marks k.out.log)
        ((arrivals k.pending).map (·, .pending) ++ (dues ++ k.serving.map (·.due))) := by
      refine h.ledger.perm ?_
      unfold State.rest owed
      rw [← List.append_assoc, ← List.append_assoc]
      exact List.perm_append_comm.append_right _
    refine (hsound.advances_each .aborted ?_).perm ?_
    · rintro _ rfl
      rfl
    · rw [← List.append_assoc]
      exact List.perm_append_comm.append_right _
  · rw [hlog]
    exact h.turns.abort

/-- An aborted job is refused. -/
lemma abortion_spec (o : Calls) (name text : String)
    (h : Base k ((job.parent.arrival, .aborted) :: dues)) :
    (∀ out, abortion o job name text k = (.ok (), out) → Base { k with out := out } dues) ∧
    ∀ e out, abortion o job name text k = (.error e, out) →
      Base ({ k with out := out }.log (.failed job.parent e)) dues := by
  have hwp := refusal_writes (o := o) (p := job.parent) job.silent name text k.count k.out
  constructor
  · intro out hrun
    obtain ⟨ms, hms, hw⟩ := (wp_run hrun hwp).1 () rfl
    refine h.closes hw ?_ ?_
    · cases hms with
      | mk answers => obtain rfl | rfl := answers <;> decide
    · rintro _ rfl
      exact .aborted hms
  · intro e out hrun
    obtain ⟨ms, hms, hw⟩ := (wp_run hrun hwp).2 e rfl
    have hfailed : Wrote job.parent k.out
        ({ k with out := out }.log (.failed job.parent e)).out (ms ++ [Mark.failed]) :=
      hw.trans (wrote_log { k with out := out } rfl)
    refine h.closes hfailed ?_ ?_
    · cases hms with
      | none => decide
      | busy => decide
      | answered answers => obtain rfl | rfl := answers <;> decide
      | idle answers => obtain rfl | rfl := answers <;> decide
    · rintro _ rfl
      exact .abortFailed hms

lemma died_inv (h : Base k [(job.parent.arrival, .failed)]) {reply : Json}
    (hrun : run o (k.goOn (.died job reply e)) = some t) : Inv t := by
  have hwp := reply_writes (p := job.parent) o.reply .executeReply (.obj []) reply k.out
  have hlast : ∀ (k' : State) (a : Mark), a.Last → Wrote job.parent k.out k'.out [a] →
      k' = { k with out := k'.out } → Inv ((k'.release [job]).goOn (.closing (some e))) := by
    intro k' a ha hw hk
    have hover : Base k' [] := by
      rw [hk]
      refine h.closes hw ?_ ?_
      · intro m hm
        rw [List.mem_singleton.1 hm]
        obtain (rfl | rfl) | rfl := ha <;> rfl
      · rintro _ ⟨b, hb, rfl⟩
        have := Course.died hb ha
        rwa [List.append_assoc, List.append_assoc]
    exact Base.goOn (k := k'.release [job]) ⟨hover.ledger, hover.turns⟩ rfl rfl
  simp only [run, State.goOn] at hrun
  cases hreply : Output.reply o.reply job.parent .executeReply (.obj []) reply k.out with
  | mk result out =>
      rw [hreply] at hrun
      cases result with
      | ok _ =>
          obtain rfl := Option.some.inj hrun
          obtain ⟨_, ⟨a, ha, rfl⟩, hw⟩ := (wp_run hreply hwp).1 () rfl
          exact hlast { k with out := out } a (.inl ha) hw rfl
      | error e' =>
          obtain rfl := Option.some.inj hrun
          obtain ⟨_, rfl, hw⟩ := (wp_run hreply hwp).2 e' rfl
          exact hlast ({ k with out := out }.log (.unsent job.parent)) .unsent (.inr rfl)
            (hw.trans (wrote_log { k with out := out } rfl)) rfl

lemma failed_inv (h : Base k [(job.parent.arrival, .failed)])
    (hrun : run o (k.goOn (.failed job e)) = some t) : Inv t := by
  simp only [run, State.goOn] at hrun
  obtain rfl := Option.some.inj hrun
  split_ifs
  · exact Base.goOn (k := { k with out := k.out }) ⟨h.ledger, h.turns⟩ rfl rfl
  · have hkind : ∀ state, MsgType.error ≠ .status state := fun state h => by cases h
    have hwrites := publishLocked_plain (p := job.parent) hkind o.shown (some job.parent)
      (.obj [("rnx", .obj [("state_lost", .bool true)])])
      (errorOutput ((error "WorkerDied" (diedText e)).set "execution_count" (.nat k.count))) k.out
    unfold wp at hwrites
    split at hwrites
    · next heq =>
        obtain ⟨_, rfl, hw⟩ := hwrites
        rw [heq]
        exact (h.quiet hw).goOn rfl rfl
    · next heq =>
        obtain ⟨_, rfl, hw⟩ := hwrites
        rw [heq]
        exact (h.quiet hw).goOn rfl rfl

/-! ## Settling -/

lemma settle_inv (h : Base k [(S.job.parent.arrival, .busy)])
    (hrun : run o (k.goOn (.settle S)) = some t) : Inv t := by
  simp only [run, State.goOn] at hrun
  split_ifs at hrun
  · obtain rfl := Option.some.inj hrun
    exact Base.goOn (k := k.takePending) h.takePending rfl rfl
  · obtain rfl := Option.some.inj hrun
    exact Base.goOn (k := k) h rfl rfl

lemma record_inv (h : Base k ((S.job.parent.arrival, .busy) :: owed aborted .aborted))
    (hrun : run o (k.goOn (.record S aborted)) = some t) : Inv t := by
  simp only [run, State.goOn] at hrun
  let book := k.book.map S.reply (if S.job.store = true then some S.count else none)
  have hbook : Base { k with book := book } ((S.job.parent.arrival, .busy) :: owed aborted .aborted) :=
    ⟨h.ledger, h.turns⟩
  split at hrun
  · next result _ =>
      obtain rfl := Option.some.inj hrun
      exact hbook.goOn rfl rfl
  · obtain rfl := Option.some.inj hrun
    exact finish_error ⟨hbook.ledger, hbook.turns⟩ .busy

lemma reply_inv {metadata result : Json}
    (h : Base k ((S.job.parent.arrival, .busy) :: owed aborted .aborted)) :
    Inv (k.proceed S.job aborted (.idle S aborted)
      (Output.reply o.reply S.job.parent .executeReply metadata result k.out)) := by
  refine proceed_inv .answered h .busy (reply_writes _ _ _ _) ?_ rfl rfl
  rintro _ ⟨a, ha, rfl⟩
  constructor
  · intro m hm
    rw [List.mem_singleton.1 hm]
    obtain rfl | rfl := ha <;> rfl
  · rintro _ ⟨store, rfl⟩
    exact ⟨store, a, ha, rfl⟩

lemma idle_inv (h : Base k ((S.job.parent.arrival, .answered) :: owed aborted .aborted)) :
    Inv (k.proceed S.job aborted (.refuse S aborted)
      (Output.status o.idle S.job.parent .idle k.out)) := by
  refine proceed_inv .idle h .answered (status_writes _ _) ?_ rfl rfl
  rintro _ rfl
  constructor
  · decide
  · rintro _ ⟨store, a, ha, rfl⟩
    exact ⟨store, _, .mk ha, rfl⟩

lemma refuse_inv (h : Base k ((S.job.parent.arrival, .idle) :: owed aborted .aborted))
    (hrun : run o (k.goOn (.refuse S aborted)) = some t) : Inv t := by
  cases aborted with
  | nil =>
      simp only [run, State.goOn] at hrun
      obtain rfl := Option.some.inj hrun
      split_ifs
      · exact finish_ok ⟨h.ledger, h.turns⟩
      · exact Base.goOn ⟨h.ledger, h.turns⟩ rfl rfl
  | cons job rest =>
      have hfront : Base (k.goOn (.refuse S (job :: rest)))
          ((job.parent.arrival, .aborted) ::
            (S.job.parent.arrival, .idle) :: owed rest .aborted) :=
        ⟨h.ledger.perm ((List.Perm.swap _ _ _).append_right _), h.turns⟩
      obtain ⟨hok, herror⟩ := abortion_spec o "ExecutionAborted"
        "an earlier request failed with stop_on_error enabled" hfront
      simp only [run, State.goOn] at hrun hok herror
      cases hcall : abortion o job "ExecutionAborted"
          "an earlier request failed with stop_on_error enabled"
          { k with stage := .refuse S (job :: rest) } with
      | mk result out =>
          rw [hcall] at hrun
          cases result with
          | ok _ =>
              obtain rfl := Option.some.inj hrun
              have hrest := hok out hcall
              exact Base.goOn ⟨hrest.ledger, hrest.turns⟩ rfl rfl
          | error e =>
              obtain rfl := Option.some.inj hrun
              have hrest := herror e out hcall
              exact finish_error ⟨hrest.ledger, hrest.turns⟩ .idle

/-! ## The end of the loop -/

lemma clean_inv {failure : Option String} (h : Base k [])
    (hrun : run o (k.goOn (.clean failure)) = some t) : Inv t := by
  simp only [run, State.goOn] at hrun
  obtain rfl := Option.some.inj hrun
  have hbase := h.takePending
  exact ⟨⟨hbase.ledger, hbase.turns⟩, fun _ => rfl, fun _ => rfl⟩

lemma drain_inv {failure : Option String} (h : Base k (owed jobs .aborted))
    (hretired : k.retiring = true) (hdrained : k.pending = [])
    (hrun : run o (k.goOn (.drain jobs failure)) = some t) : Inv t := by
  cases jobs with
  | nil =>
      simp only [run, State.goOn] at hrun
      obtain rfl := Option.some.inj hrun
      exact ⟨⟨h.ledger, h.turns⟩, fun _ => hretired, fun _ => hdrained⟩
  | cons job rest =>
      have hfront : Base (k.goOn (.drain (job :: rest) failure))
          ((job.parent.arrival, .aborted) :: owed rest .aborted) := ⟨h.ledger, h.turns⟩
      obtain ⟨hok, herror⟩ := abortion_spec o "WorkerDied" "kernel is shutting down; state lost"
        hfront
      simp only [run, State.goOn] at hrun hok herror
      cases hcall : abortion o job "WorkerDied" "kernel is shutting down; state lost"
          { k with stage := .drain (job :: rest) failure } with
      | mk result out =>
          rw [hcall] at hrun
          cases result with
          | ok _ =>
              obtain rfl := Option.some.inj hrun
              have hrest := hok out hcall
              exact ⟨⟨hrest.ledger, hrest.turns⟩, fun _ => hretired, fun _ => hdrained⟩
          | error e =>
              obtain rfl := Option.some.inj hrun
              have hrest := herror e out hcall
              rw [← List.append_nil (owed rest .aborted)] at hrest
              have hleft := hrest.leaves
              exact ⟨⟨hleft.ledger, hleft.turns⟩, fun _ => hretired, fun _ => hdrained⟩

/-! ## The loop -/

/-- The first job of the queue is taken. -/
lemma pop_inv {rest : List Job} (h : Base k []) (hpending : k.pending = job :: rest) :
    Inv (({ k with pending := rest }.log (.executed job.parent)).goOn (.popped job)) := by
  have hlog : marks ({ k with pending := rest }.log (.executed job.parent)).out.log =
      marks k.out.log ++ [Mark.executed].map (job.parent.arrival, ·) :=
    wrote_log { k with pending := rest } rfl
  have hledger := h.ledger
  have hturns := h.turns
  unfold State.rest at hledger
  rw [hpending] at hledger hturns
  have hpopped : Base ({ k with pending := rest }.log (.executed job.parent))
      [(job.parent.arrival, .popped)] := by
    constructor
    · rw [hlog]
      refine hledger.advances ?_
      rintro _ rfl
      rfl
    · rw [hlog]
      exact hturns.pop
  exact hpopped.goOn rfl rfl

/-- One step of the loop. -/
lemma run_inv (h : Inv k) (hrun : run o k = some t) : Inv t := by
  have hgo : ∀ {stage}, k.stage = stage → k = k.goOn stage := by
    rintro stage rfl
    rfl
  cases hstage : k.stage with
  | head =>
      have hbase := h.at hstage rfl
      simp only [run, hstage] at hrun
      split_ifs at hrun
      · obtain rfl := Option.some.inj hrun
        exact hbase.goOn rfl rfl
      · split at hrun
        · cases hrun
        · next job rest hpending =>
            obtain rfl := Option.some.inj hrun
            exact pop_inv hbase hpending
  | popped job =>
      simp only [run, hstage] at hrun
      obtain rfl := Option.some.inj hrun
      exact start_inv (h.at hstage rfl)
  | busy job count =>
      simp only [run, hstage] at hrun
      obtain rfl := Option.some.inj hrun
      have hbase : Base k ((job.parent.arrival, .started) :: owed [] .aborted) := h.at hstage rfl
      refine proceed_inv .busy hbase .started (status_writes _ _) ?_ rfl rfl
      rintro _ rfl
      refine ⟨by decide, ?_⟩
      rintro _ ⟨store, rfl⟩
      exact ⟨store, rfl⟩
  | entry job count =>
      simp only [run, hstage] at hrun
      obtain rfl := Option.some.inj hrun
      exact enter_inv (h.at hstage rfl)
  | operate job count =>
      have hbase := h.at hstage rfl
      simp only [run, hstage] at hrun
      split_ifs at hrun
      · obtain rfl := Option.some.inj hrun
        exact Base.goOn ⟨hbase.ledger, hbase.turns⟩ rfl rfl
      · obtain rfl := Option.some.inj hrun
        exact finish_alone hbase .busy
  | operating job count op =>
      have hbase := h.at hstage rfl
      simp only [run, hstage, Option.map_eq_some_iff] at hrun
      obtain ⟨reply, -, rfl⟩ := hrun
      exact hbase.goOn rfl rfl
  | settle S =>
      rw [hgo hstage] at hrun
      exact settle_inv (h.at hstage rfl) hrun
  | record S aborted =>
      rw [hgo hstage] at hrun
      exact record_inv (h.at hstage rfl) hrun
  | shown S aborted metadata result =>
      simp only [run, hstage] at hrun
      obtain rfl := Option.some.inj hrun
      exact proceed_quiet (h.at hstage rfl) .busy (display_writes S _ _ _) rfl rfl
  | reply S aborted metadata result =>
      simp only [run, hstage] at hrun
      obtain rfl := Option.some.inj hrun
      exact reply_inv (h.at hstage rfl)
  | idle S aborted =>
      simp only [run, hstage] at hrun
      obtain rfl := Option.some.inj hrun
      exact idle_inv (h.at hstage rfl)
  | refuse S aborted =>
      rw [hgo hstage] at hrun
      exact refuse_inv (h.at hstage rfl) hrun
  | ack S =>
      have hbase := h.at hstage rfl
      simp only [run, hstage] at hrun
      split_ifs at hrun
      · obtain rfl := Option.some.inj hrun
        exact finish_alone hbase .idle
      · obtain rfl := Option.some.inj hrun
        exact finish_ok hbase
  | failed job e =>
      rw [hgo hstage] at hrun
      exact failed_inv (h.at hstage rfl) hrun
  | died job reply e =>
      rw [hgo hstage] at hrun
      exact died_inv (h.at hstage rfl) hrun
  | closing failure =>
      have hbase := h.at hstage rfl
      simp only [run, hstage] at hrun
      obtain rfl := Option.some.inj hrun
      exact ⟨⟨hbase.ledger, hbase.turns⟩, fun _ => rfl, fun hdrained => by cases hdrained⟩
  | clean failure =>
      rw [hgo hstage] at hrun
      exact clean_inv (h.at hstage rfl) hrun
  | drain jobs failure =>
      have hretired := h.retired (by rw [hstage]; rfl)
      have hdrained := h.drained (by rw [hstage]; rfl)
      rw [hgo hstage] at hrun
      exact drain_inv (h.at hstage rfl) hretired hdrained hrun
  | finished failure =>
      simp only [run, hstage] at hrun
      cases hrun

lemma streamed_inv {r : Outcome} {event : StreamEvent} (h : Inv k)
    (hstep : streamed r event k = some t) : Inv t := by
  unfold streamed at hstep
  split at hstep
  · next job count op hstage =>
      have hbase := h.at hstage rfl
      split_ifs at hstep
      · obtain rfl := Option.some.inj hstep
        exact h
      all_goals
        obtain rfl := Option.some.inj hstep
        exact proceed_alone hbase (stream_writes _ _ _) ⟨rfl, rfl⟩
  · next hstage =>
      have hbase := h.at hstage rfl
      split_ifs at hstep
      have hwp := stream_writes (p := ⟨0, 0, [], []⟩) r none event k.out
      split at hstep
      · next out hrun =>
          obtain rfl := Option.some.inj hstep
          obtain ⟨_, rfl, hw⟩ := (wp_run hrun hwp).1 () rfl
          have hquiet := hbase.quiet hw
          rw [← show k.stage.dues = Stage.head.dues by rw [hstage]] at hquiet
          exact ⟨hquiet, h.retired, h.drained⟩
      · next e out hrun =>
          obtain rfl := Option.some.inj hstep
          obtain ⟨_, rfl, hw⟩ := (wp_run hrun hwp).2 e rfl
          exact (hbase.quiet hw).goOn rfl rfl
  · cases hstep

lemma controlled_inv {value : Json} (h : Inv k) (hstep : controlled value k = some t) : Inv t := by
  unfold controlled at hstep
  split at hstep
  · next job count op hstage =>
      have hbase := h.at hstage rfl
      split at hstep
      · obtain rfl := Option.some.inj hstep
        exact hbase.goOn rfl rfl
      · obtain rfl := Option.some.inj hstep
        exact finish_alone hbase .busy
  · cases hstep

lemma workerFails_inv (h : Inv k) (hstep : workerFails e k = some t) : Inv t := by
  unfold workerFails at hstep
  split at hstep
  · next job count op hstage =>
      obtain rfl := Option.some.inj hstep
      exact finish_alone (h.at hstage rfl) .busy
  · next S hstage =>
      obtain rfl := Option.some.inj hstep
      exact finish_alone (h.at hstage rfl) .idle
  · next hstage =>
      split_ifs at hstep
      obtain rfl := Option.some.inj hstep
      exact (h.at hstage rfl).goOn rfl rfl
  · cases hstep

lemma notice_inv (h : Inv k) (hstep : notice k = some t) : Inv t := by
  have hsame : Inv { k with noticed := true } :=
    ⟨⟨h.base.ledger, h.base.turns⟩, h.retired, h.drained⟩
  unfold notice at hstep
  split_ifs at hstep
  split at hstep
  · obtain rfl := Option.some.inj hstep
    exact hsame
  · obtain rfl := Option.some.inj hstep
    exact hsame
  · obtain rfl := Option.some.inj hstep
    exact hsame
  · cases hstep

/-- An execution that is dropped. -/
lemma dropped_inv (h : Base k [(job.parent.arrival, d)]) (hd : d.Executing) :
    Inv (((k.log (.abandoned job.parent)).release [job]).goOn (.closing none)) := by
  have hover : Base (k.log (.abandoned job.parent)) [] := by
    refine Base.closes h (wrote_log _ rfl) (by decide) ?_
    intro l hl
    obtain ⟨b, hb, rfl⟩ := hd.begun hl
    rw [List.append_assoc]
    exact .abandoned hb
  exact Base.goOn (k := (k.log (.abandoned job.parent)).release [job])
    ⟨hover.ledger, hover.turns⟩ rfl rfl

lemma abandon_inv (h : Inv k) (hstep : abandon k = some t) : Inv t := by
  unfold abandon at hstep
  split_ifs at hstep
  split at hstep
  · next job count op hstage =>
      obtain rfl := Option.some.inj hstep
      exact dropped_inv (h.at hstage rfl) .busy
  · next S hstage =>
      obtain rfl := Option.some.inj hstep
      exact dropped_inv (h.at hstage rfl) .idle
  · cases hstep

end Jupyter.Kernel

end Rnx
