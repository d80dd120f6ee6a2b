import Mathlib.Data.List.Perm.Basic
import Rnx.Jupyter.Loop

/-!
# The steps of the handlers

A message that arrives is owed an answer from then on, by its handler or, once it is admitted, by the
loop.  With these every event keeps the invariant.
-/

namespace Rnx

open ErrState

namespace Jupyter.Kernel

variable {k t : State} {dues : List (Nat × Due)} {d : Due} {p : Parent} {out : Output}
  {ms l : List Mark} {job : Job} {e : String} {o : Calls} {v : Serving} {i : Nat}
  {m : ErrState String Output Unit} {G B : List Mark → Prop} {rune : String}
  {request : Request} {channel : Channel} {route : Nat}

/-! ## Plain marks -/

lemma Mark.Answers.plain {kind : MsgType} {a : Mark} (h : a.Answers kind) : a.plain = true := by
  obtain rfl | rfl := h
  · rfl
  · rfl

lemma Bracket.plain {kind : MsgType} (h : Bracket kind ms) : ∀ m ∈ ms, m.plain = true := by
  cases h with
  | none => decide
  | busy => decide
  | answered answers =>
      rw [List.forall_mem_cons, List.forall_mem_singleton]
      exact ⟨rfl, answers.plain⟩
  | idle answers =>
      rw [List.forall_mem_cons, List.forall_mem_cons, List.forall_mem_singleton]
      exact ⟨rfl, answers.plain, rfl⟩

lemma Informing.marks_plain (h : Informing ms) : ∀ m ∈ ms, m.plain = true := by
  cases h with
  | bracket bracket => exact bracket.plain
  | plain answers =>
      rw [List.forall_mem_singleton]
      exact answers.plain

lemma Informed.informing (h : Informed ms) : Informing ms := by
  cases h with
  | bracketed served => exact .bracket served.bracket
  | plain answers => exact .plain answers

/-! ## Steps of handlers -/

/-- A handler that fails: its request is over, and so is its connection. -/
lemma Base.handlerFailed (h : Base k ((p.arrival, d) :: dues)) (hw : Wrote p k.out out ms)
    (hplain : ∀ m ∈ ms, m.plain = true) (hd : ∀ l, d.course l → Course (l ++ (ms ++ [Mark.failed]))) :
    Base ({ k with out := out }.handlerFailed p e) dues := by
  have hfailed : Wrote p k.out ({ k with out := out }.handlerFailed p e).out (ms ++ [Mark.failed]) :=
    hw.trans (wrote_log { k with out := { out with closed := p.route :: out.closed } } rfl)
  refine h.closes hfailed ?_ hd
  intro m hm
  rw [List.mem_append, List.mem_singleton] at hm
  obtain hm | rfl := hm
  · exact hplain m hm
  · rfl

/-- The last computation of a handler. -/
lemma Base.handled (h : Base k ((p.arrival, d) :: dues)) (hm : Writes p m G B)
    (hplain : ∀ ms, G ms ∨ B ms → ∀ m ∈ ms, m.plain = true)
    (hgood : ∀ ms, G ms → ∀ l, d.course l → Course (l ++ ms))
    (hbad : ∀ ms, B ms → ∀ l, d.course l → Course (l ++ (ms ++ [Mark.failed]))) :
    Base (k.handled p (m k.out)) dues := by
  have hwp := hm k.out
  unfold wp at hwp
  cases hrun : m k.out with
  | mk result out =>
      rw [hrun] at hwp
      cases result with
      | ok _ =>
          obtain ⟨ms, hms, hw⟩ := hwp
          exact h.closes hw (hplain ms (.inl hms)) (hgood ms hms)
      | error e =>
          obtain ⟨ms, hms, hw⟩ := hwp
          exact h.handlerFailed hw (hplain ms (.inr hms)) (hbad ms hms)

lemma Base.informs (h : Base k ((p.arrival, .info) :: dues)) (hm : Writes p m Informed Informing) :
    Base (k.handled p (m k.out)) dues := by
  refine h.handled hm ?_ ?_ ?_
  · rintro ms (hms | hms)
    · exact hms.informing.marks_plain
    · exact hms.marks_plain
  · rintro ms hms _ rfl
    exact .informed hms
  · rintro ms hms _ rfl
    exact .informFailed hms

lemma Base.refuses {silent : Bool} {name text : String} {count : Nat}
    (h : Base k ((p.arrival, .refusal) :: dues)) :
    Base (k.handled p (Output.refusal o p silent name text count k.out)) dues := by
  refine h.handled (refusal_writes silent name text count) ?_ ?_ ?_
  · rintro ms (hms | hms)
    · exact hms.bracket.plain
    · exact hms.plain
  · rintro ms hms _ rfl
    exact .refused hms
  · rintro ms hms _ rfl
    exact .refusalFailed hms

/-- A handler has more to do. -/
lemma Base.serves (h : Base k (v.due :: dues)) : Base (k.serves v) dues := by
  refine ⟨h.ledger.perm ?_, h.turns⟩
  change List.Perm (v.due :: (dues ++ (owed k.pending .pending ++ k.serving.map (·.due))))
    (dues ++ (owed k.pending .pending ++ (k.serving ++ [v]).map (·.due)))
  rw [List.map_append, ← List.append_assoc, ← List.append_assoc, ← List.append_assoc]
  exact (List.perm_append_singleton _ _).symm

/-- A handler takes its step: without it, its request is owed an answer. -/
lemma Base.without (h : Base k dues) (hv : k.serving[i]? = some v) :
    Base { k with serving := k.serving.eraseIdx i } (v.due :: dues) := by
  refine ⟨h.ledger.perm ?_, h.turns⟩
  obtain ⟨hi, rfl⟩ := List.getElem?_eq_some_iff.1 hv
  change List.Perm (dues ++ (owed k.pending .pending ++ k.serving.map (·.due)))
    (_ :: (dues ++ (owed k.pending .pending ++ (k.serving.eraseIdx i).map (·.due))))
  rw [← List.append_assoc, ← List.append_assoc]
  have hperm := ((List.getElem_cons_eraseIdx_perm hi).map (·.due)).symm
  exact (hperm.append_left _).trans List.perm_middle

/-- A step that leaves the loop, the queue and the end of admission alone. -/
lemma Inv.beside (h : Inv k) (hbase : Base t k.stage.dues) (hstage : t.stage = k.stage)
    (hretiring : k.retiring = true → t.retiring = true) (hpending : t.pending = k.pending) :
    Inv t where
  base := by
    rw [hstage]
    exact hbase
  retired hr := by
    rw [hstage] at hr
    exact hretiring (h.retired hr)
  drained hd := by
    rw [hstage] at hd
    rw [hpending]
    exact h.drained hd

lemma handled_serving (k : State) (p : Parent) (r : Except String Unit × Output)
    (rest : List Serving) :
    { k.handled p r with serving := rest } = { k with serving := rest }.handled p r := by
  obtain ⟨e | _, out⟩ := r
  · rfl
  · rfl

lemma handled_keeps (k : State) (p : Parent) (r : Except String Unit × Output) :
    (k.handled p r).stage = k.stage ∧ (k.handled p r).retiring = k.retiring ∧
      (k.handled p r).pending = k.pending := by
  obtain ⟨e | _, out⟩ := r
  · exact ⟨rfl, rfl, rfl⟩
  · exact ⟨rfl, rfl, rfl⟩

/-- A handler's last step keeps the invariant. -/
lemma Inv.handled (h : Inv k) {r : Except String Unit × Output}
    (hbase : Base ({ k with serving := k.serving.eraseIdx i }.handled p r) k.stage.dues) :
    Inv { k.handled p r with serving := k.serving.eraseIdx i ++ [] } := by
  rw [List.append_nil, handled_serving]
  obtain ⟨hstage, hretiring, hpending⟩ :=
    handled_keeps { k with serving := k.serving.eraseIdx i } p r
  exact h.beside hbase hstage (fun hr => hretiring.trans hr) hpending

/-- A handler that has more to do keeps the invariant. -/
lemma Inv.goesOn (h : Inv k) {v' : Serving} (hv : k.serving[i]? = some v) (hdue : v'.due = v.due)
    (hsame : t = { k with retiring := t.retiring, stop := t.stop })
    (hretiring : k.retiring = true → t.retiring = true) :
    Inv { t with serving := k.serving.eraseIdx i ++ [v'] } := by
  have hwithout := h.base.without hv
  rw [← hdue] at hwithout
  have hserves := hwithout.serves
  rw [hsame]
  exact h.beside ⟨hserves.ledger, hserves.turns⟩ rfl hretiring rfl

/-- One step of a handler. -/
lemma serve_inv {r : State × Option Serving} (h : Inv k) (hv : k.serving[i]? = some v)
    (hstep : serve rune o v k = some r) :
    Inv { r.1 with serving := k.serving.eraseIdx i ++ r.2.toList } := by
  have hwithout := h.base.without hv
  cases v with
  | load p silent name text =>
      obtain rfl := Option.some.inj hstep
      exact h.goesOn hv rfl rfl id
  | refuse p silent name text count =>
      obtain rfl := Option.some.inj hstep
      exact h.handled hwithout.refuses
  | shellInfo p =>
      simp only [serve] at hstep
      split_ifs at hstep
      obtain rfl := Option.some.inj hstep
      exact h.handled (hwithout.informs (shellInfo_writes _))
  | controlInfo p =>
      obtain rfl := Option.some.inj hstep
      exact h.handled (hwithout.informs (controlInfo_writes _))
  | interrupt p =>
      obtain rfl := Option.some.inj hstep
      exact h.handled (hwithout.informs interruptReply_writes)
  | retire p restart =>
      obtain rfl := Option.some.inj hstep
      exact h.goesOn (t := { k with retiring := true }) hv rfl rfl fun _ => rfl
  | stop p restart =>
      simp only [serve] at hstep
      split at hstep
      · next e _ =>
          obtain rfl := Option.some.inj hstep
          refine Inv.handled (r := (.error e, k.out)) h ?_
          refine hwithout.handlerFailed (Wrote.same rfl) (fun m hm => by cases hm) ?_
          rintro _ rfl
          exact .informFailed (.bracket (.none : Bracket .shutdownReply _))
      · obtain rfl := Option.some.inj hstep
        exact h.goesOn (t := { k with stop := true }) hv rfl rfl id
  | farewell p restart =>
      obtain rfl := Option.some.inj hstep
      exact h.handled (hwithout.informs (shutdownReply_writes restart))

/-! ## Arrivals -/

/-- A message arrives. -/
lemma Base.arrives (execute : Bool) (h : Base k dues) (hp : p.arrival = k.next)
    (hd : d.course [.arrived execute]) :
    Base ({ k with next := k.next + 1 }.log (.arrived p execute)) ((p.arrival, d) :: dues) := by
  have hlog : marks ({ k with next := k.next + 1 }.log (.arrived p execute)).out.log =
      marks k.out.log ++ [Mark.arrived execute].map (k.next, ·) := by
    rw [← hp]
    exact wrote_log { k with next := k.next + 1 } rfl
  constructor
  · rw [hlog, hp]
    exact h.ledger.opens hd
  · rw [hlog]
    refine h.turns.plain (plain_map ?_)
    rw [List.forall_mem_singleton]
    rfl

/-- A job enters the queue. -/
lemma Base.admits {bytes : Nat} (job : Job) (h : Base k ((job.parent.arrival, .refusal) :: dues)) :
    Base ({ k with bytes := bytes, pending := k.pending ++ [job] }.log (.admitted job.parent))
      dues := by
  have hlog : marks ({ k with bytes := bytes, pending := k.pending ++ [job] }.log
        (.admitted job.parent)).out.log =
      marks k.out.log ++ [Mark.admitted].map (job.parent.arrival, ·) :=
    wrote_log { k with bytes := bytes, pending := k.pending ++ [job] } rfl
  constructor
  · rw [hlog]
    have hpending : ∀ l, Due.refusal.course l → Due.pending.course (l ++ [Mark.admitted]) := by
      rintro _ rfl
      rfl
    have hledger := h.ledger.advances hpending
    refine hledger.perm ?_
    change List.Perm ((job.parent.arrival, .pending) ::
        (dues ++ (owed k.pending .pending ++ k.serving.map (·.due))))
      (dues ++ (owed (k.pending ++ [job]) .pending ++ k.serving.map (·.due)))
    unfold owed arrivals
    rw [List.map_append, List.map_append, ← List.append_assoc, ← List.append_assoc,
      ← List.append_assoc]
    exact (List.perm_append_singleton _ _).symm.append_right _
  · rw [hlog]
    change Turns _ (arrivals (k.pending ++ [job])) _
    unfold arrivals
    rw [List.map_append]
    exact h.turns.admitting

/-- The step of a handler that admits or refuses. -/
lemma admit_inv (h : Base k ((p.arrival, .refusal) :: k.stage.dues))
    (hretired : k.stage.retired = true → k.retiring = true)
    (hdrained : k.stage.drained = true → k.pending = []) : Inv (admitExecute p request k) := by
  have hload : ∀ silent name text, Inv (k.serves (.load p silent name text)) := fun silent name text =>
    ⟨Base.serves (v := .load p silent name text) h, hretired, hdrained⟩
  unfold admitExecute
  split
  · exact hload _ _ _
  · next opts _ =>
      dsimp only
      split_ifs with hfull
      · exact hload _ _ _
      · refine ⟨Base.admits ⟨p, _, _, _, _, _, _⟩ h, hretired, fun hstage => ?_⟩
        have hstage : k.stage.drained = true := hstage
        have hr : k.stage.retired = true := by
          cases hk : k.stage <;> rw [hk] at hstage <;> first | rfl | cases hstage
        exact absurd (.inl (hretired hr)) hfull

lemma arrive_inv (h : Inv k) : Inv (arrive channel route request k) := by
  unfold arrive dispatch
  dsimp only
  cases hexecute : isExecute channel request with
  | true =>
      rw [if_pos rfl]
      exact admit_inv (h.base.arrives true rfl rfl) h.retired h.drained
  | false =>
      rw [if_neg (by decide)]
      have hbase := h.base.arrives (p := ⟨k.next, route, request.routing, request.header⟩)
        (d := .info) false rfl rfl
      have hserves : ∀ v : Serving, v.due = (k.next, .info) →
          Inv (({ k with next := k.next + 1 }.log
            (.arrived ⟨k.next, route, request.routing, request.header⟩ false)).serves v) := by
        intro v hv
        rw [show (k.next, Due.info) = v.due from hv.symm] at hbase
        exact ⟨Base.serves hbase, h.retired, h.drained⟩
      split_ifs
      · exact hserves _ rfl
      · exact hserves _ rfl
      · exact hserves _ rfl
      · split
        · refine ⟨?_, h.retired, h.drained⟩
          refine hbase.handlerFailed (Wrote.same rfl) (fun m hm => by cases hm) ?_
          rintro _ rfl
          exact .informFailed (.bracket (.none : Bracket .shutdownReply _))
        · exact hserves _ rfl
      · have hover := Base.ends hbase (by rintro _ rfl; exact .ignored)
        exact ⟨hover, h.retired, h.drained⟩

/-! ## Events -/

/-- Every event keeps the invariant. -/
lemma next_inv {event : Event} (h : Inv k) (hstep : next rune k event = some t) : Inv t := by
  cases event with
  | arrive channel route request =>
      obtain rfl := Option.some.inj hstep
      exact arrive_inv h
  | serve i o =>
      obtain ⟨v, hv, hstep⟩ := Option.bind_eq_some_iff.1 hstep
      obtain ⟨r, hr, rfl⟩ := Option.map_eq_some_iff.1 hstep
      exact serve_inv h hv hr
  | close route =>
      obtain rfl := Option.some.inj hstep
      exact ⟨⟨h.base.ledger, h.base.turns⟩, h.retired, h.drained⟩
  | run o => exact run_inv h hstep
  | stream event o => exact streamed_inv h hstep
  | control value => exact controlled_inv h hstep
  | workerFails e => exact workerFails_inv h hstep
  | notice => exact notice_inv h hstep
  | abandon => exact abandon_inv h hstep

lemma reachable_inv (h : (machine rune).Reachable k) : Inv k := by
  refine h.invariant ?_ ?_
  · rintro _ rfl
    exact new_inv
  · intro k event t _ hk hstep
    obtain ⟨t', hnext, heq⟩ := Option.map_eq_some_iff.1 hstep
    obtain ⟨rfl, -⟩ := Prod.ext_iff.1 heq
    exact next_inv hk hnext

end Jupyter.Kernel

end Rnx
