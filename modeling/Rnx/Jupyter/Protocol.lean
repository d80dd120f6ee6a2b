import Mathlib.Data.List.Forall2
import Rnx.Jupyter.Barriers

/-!
# The protocol of the worker

What the kernel and its worker keep, in whatever order they take their steps: what each of the two
has sent and the other has not yet taken follows from how far they are, an operation is over for
both before the next is under way, and what an acknowledged operation has delivered is what the
worker has written for it.
-/

namespace Rnx

namespace Jupyter.Worker

/-- The marker of an operation on a stream. -/
def marker (id : Nat) (nonce : List Char) (i : Stream) : Bytes :=
  Capture.markerBytes id i.name (String.ofList nonce)

/-- The identities of the operations that were acknowledged. -/
def ids (l : List Report) : List Nat := l.map (·.id)

/-- What was reported is what was settled.  The output has before it what was on its way when the
operation began, and is cut where the captures are full. -/
structure Delivered (r : Round) (p : Report) : Prop where
  id_eq : r.id = p.id
  reply_eq : r.reply = p.reply
  output : ∀ i, ∃ lost stray, r.gap i = lost ++ stray ∧
    p.output i = (stray ++ r.output i).take cap ∧
      p.discarded i = (stray ++ r.output i).length - cap

/-! ## Messages on their way -/

/-- A worker with nothing to do but to take an acknowledgement: what it is sent besides. -/
inductive Resting (done : List Nat) : List Nat → Turn → List ToWorker → Prop
  | waiting : Resting done done .waiting []
  | awaiting {acks : List Nat} {id : Nat} (retire : Bool) (h : done = acks ++ [id]) :
      Resting done acks (.awaiting id retire) [.ack id]
  | gone : Resting done done .gone []

/-- What the kernel has not taken of the messages before a settlement. -/
inductive Told (op : Operation) : Option Nat → List Json → Prop
  | quiet (h : op.armed = none) : Told op none []
  | coming {input : Nat} (hpos : 0 < input) (h : op.armed = none) :
      Told op (some input) [armedMessage op.id input]
  | armed {input : Nat} (h : op.armed = some (epoch, input)) : Told op (some input) []

/-- The refusals that depend on what an evaluation came to: a result or a failure that is over its
bounds. -/
def Refusable (e : String) : Prop :=
  e = "invalid worker rendered result" ∨ e = "invalid worker failure"

/-- The kernel takes the message that an input is armed. -/
lemma control_armed {op : Operation} {input : Nat} (hpos : 0 < input) (harmed : op.armed = none)
    (hreply : op.reply = none) : op.control (armedMessage op.id input) =
      .ok { op with armed := some (epoch, input) } := by
  have hepoch : 0 < epoch := by decide
  simp [Operation.control, armedMessage, Json.get, Json.get?, Json.asU64, Json.asStr, harmed,
    hreply, Json.positive, hpos, hepoch, List.lookup_cons]
  rfl

section
variable (id : Nat) (input : Option Nat) (o : Outcome)

lemma settled_id : ((settledMessage id input o).get "id").asU64 = some id := rfl

lemma settled_type : ((settledMessage id input o).get "type").asStr = some "settled" := rfl

lemma settled_input : ((settledMessage id input o).get "input").asU64 = input := by
  cases input <;> rfl

/-- What is left of the checks of a settlement. -/
lemma checkSettled_settled {armed : Option (Nat × Nat)} (h : armed = input.map (epoch, ·)) :
    checkSettled armed (settledMessage id input o) = .ok () ∨
      ∃ e, checkSettled armed (settledMessage id input o) = .error e ∧ Refusable e := by
  have hepoch : ((settledMessage id input o).get "epoch").positive "invalid settled epoch" =
      .ok epoch := rfl
  have hfields : (((settledMessage id input o).get? "input").isNone ||
      ((settledMessage id input o).get? "text_plain").isNone ||
      ((settledMessage id input o).get? "failure").isNone ||
      ((settledMessage id input o).get "state_lost").asBool.isNone) = false := rfl
  unfold checkSettled
  rw [hepoch, settled_input]
  simp only [bind, Except.bind, hfields, ← h]
  by_cases htext : (((settledMessage id input o).get "text_plain").isNull ||
      ((settledMessage id input o).get "text_plain").isShort) = true
  · by_cases hfailure : ((settledMessage id input o).get "failure").isFailure = true
    · left
      simp [htext, hfailure]
      rfl
    · right
      refine ⟨_, ?_, .inr rfl⟩
      simp [htext, hfailure]
      rfl
  · right
    refine ⟨_, ?_, .inl rfl⟩
    simp [htext]
    rfl

end

/-- The kernel takes a settlement, or what is in it is over its bounds. -/
lemma control_settled {op : Operation} {input : Option Nat} {o : Outcome}
    (harmed : op.armed = input.map (epoch, ·)) (hreply : op.reply = none) :
    op.control (settledMessage op.id input o) =
        .ok { op with reply := some (settledMessage op.id input o) } ∨
      ∃ e, op.control (settledMessage op.id input o) = .error e ∧ Refusable e := by
  have hcontrol : op.control (settledMessage op.id input o) =
      (do checkSettled op.armed (settledMessage op.id input o)
          return { op with reply := some (settledMessage op.id input o) }) := by
    unfold Operation.control
    rw [settled_id, settled_type, if_neg (not_not.2 rfl)]
    simp only [hreply]
    rfl
  rw [hcontrol]
  obtain hok | ⟨e, herror, he⟩ := checkSettled_settled op.id input o harmed
  · rw [hok]
    exact .inl rfl
  · rw [herror]
    exact .inr ⟨e, rfl, he⟩

/-! ## How far the two are -/

/-- No operation is outstanding at the worker. -/
structure Quiet (s : System) : Prop where
  toKernel : s.toKernel = []
  resting : Resting (ids s.reports) s.acks s.turn s.toWorker
  requests : s.requests = ids s.reports
  accepted : s.accepted = ids s.reports
  rounds : List.Forall₂ Delivered s.rounds s.reports

/-- The worker has the request of the operation. -/
structure Busy (s : System) (id : Nat) : Prop where
  toWorker : s.toWorker = []
  acks : s.acks = ids s.reports
  requests : s.requests = ids s.reports ++ [id]
  accepted : s.accepted = ids s.reports ++ [id]

/-- An operation that was begun. -/
structure Fresh (id : Nat) (nonce : List Char) (known : List Nat) : Prop where
  pos : 0 < id
  le : id ≤ maxId
  nonce : nonceOk nonce = true
  above : ∀ x ∈ known, x < id

/-- How far the kernel and the worker are. -/
inductive Stage (s : System) : Prop
  | idle (hphase : s.phase = .idle) (hquiet : Quiet s) (hlines : ∀ i, (s.lines i).Idle)
  | opened {id : Nat} {nonce : List Char} {source : Option String}
      (hphase : s.phase = .opened id nonce source) (hquiet : Quiet s)
      (hfresh : Fresh id nonce (ids s.reports)) (hle : id ≤ s.id)
      (hlines : ∀ i, (s.lines i).Ok (marker id nonce i) .before)
  | asked {op : Operation} {nonce : List Char} {source : Option String} {queue : List ToWorker}
      (hphase : s.phase = .running op) (hnew : op.armed = none ∧ op.reply = none)
      (hkernel : s.toKernel = []) (hresting : Resting (ids s.reports) s.acks s.turn queue)
      (hworker : s.toWorker = queue ++ [.request op.id nonce source])
      (hrequests : s.requests = ids s.reports ++ [op.id]) (haccepted : s.accepted = ids s.reports)
      (hrounds : List.Forall₂ Delivered s.rounds s.reports)
      (hfresh : Fresh op.id nonce (ids s.reports))
      (hlines : ∀ i, (s.lines i).Ok (marker op.id nonce i) .before)
  | working {op : Operation} {r : Accepted} (hphase : s.phase = .running op)
      (hturn : s.turn = .working r) (hid : r.id = op.id) (hreply : op.reply = none)
      (htold : Told op r.input s.toKernel) (hbusy : Busy s op.id)
      (hrounds : List.Forall₂ Delivered s.rounds s.reports)
      (hlines : ∀ i, (s.lines i).Ok (marker op.id r.nonce i) .during)
  | settling {op : Operation} {r : Accepted} {o : Outcome} {retire : Bool} {left : List Stream}
      (hphase : s.phase = .running op)
      (hturn : s.turn = .settling r (settledMessage op.id r.input o) retire left)
      (hid : r.id = op.id) (hreply : op.reply = none) (htold : Told op r.input s.toKernel)
      (hbusy : Busy s op.id) (hrounds : List.Forall₂ Delivered s.rounds s.reports)
      (hnodup : left.Nodup)
      (hlines : ∀ i, (s.lines i).Ok (marker op.id r.nonce i)
        (if i ∈ left then .during else .past))
  | settled {op : Operation} {nonce : List Char} {retire : Bool} {base : List Round} {r : Round}
      (hphase : s.phase = .running op) (hturn : s.turn = .awaiting op.id retire)
      (hbusy : Busy s op.id) (hround : s.rounds = base ++ [r])
      (hrounds : List.Forall₂ Delivered base s.reports) (hid : r.id = op.id)
      (hdone : ∀ i, (s.lines i).done = (r.gap i, r.output i))
      (hreply : op.reply = some r.reply ∧ s.toKernel = [] ∨ op.reply = none ∧ s.toKernel = [] ∨
        op.reply = none ∧ ∃ input o queue, r.reply = settledMessage op.id input o ∧
          Told op input queue ∧ s.toKernel = queue ++ [r.reply])
      (hlines : ∀ i, (s.lines i).Ok (marker op.id nonce i) .past)
  | completed {op : Operation} {nonce : List Char} {retire : Bool} {base : List Round} {r : Round}
      (hphase : s.phase = .completed op) (hturn : s.turn = .awaiting op.id retire)
      (hbusy : Busy s op.id) (hround : s.rounds = base ++ [r])
      (hrounds : List.Forall₂ Delivered base s.reports) (hid : r.id = op.id)
      (hdone : ∀ i, (s.lines i).done = (r.gap i, r.output i))
      (hreply : op.reply = some r.reply) (hkernel : s.toKernel = [])
      (hended : ∀ i, (s.lines i).ended = true)
      (hlines : ∀ i, (s.lines i).Ok (marker op.id nonce i) .past)
  | acked {op : Operation} {nonce : List Char} (hphase : s.phase = .acked op) (hquiet : Quiet s)
      (hended : ∀ i, (s.lines i).ended = true)
      (hlines : ∀ i, (s.lines i).Ok (marker op.id nonce i) .past)

/-- The invariant. -/
structure Inv (s : System) : Prop where
  sorted : s.requests.Pairwise (· < ·)
  bound : ∀ x ∈ s.requests, x ≤ s.id
  last : s.last = 0 ∨ s.last ∈ s.accepted
  fault : s.fault = false
  refused : ∀ e, s.refused = some e → Refusable e
  stage : Stage s

variable {s t : System}

/-- The stage goes along with what keeps every stream.  It does not depend on what fails, and the
counter may go up. -/
lemma Stage.mono (h : Stage s) {n : Nat} {lines : Stream → Line} (hn : s.id ≤ n)
    (hidle : ∀ i, (s.lines i).Idle → (lines i).Idle)
    (hok : ∀ i m place, (s.lines i).Ok m place → (lines i).Ok m place)
    (hdone' : ∀ i, (lines i).done = (s.lines i).done)
    (hended' : ∀ i, (s.lines i).ended = true → (lines i).ended = true)
    (failed error alive fault forged : Bool) (refused : Option String) (last : Nat) :
    Stage { s with
      id := n, lines := lines, failed := failed, error := error, alive := alive, fault := fault,
      forged := forged, refused := refused, last := last } := by
  cases h with
  | idle hphase hquiet hlines =>
    exact .idle hphase { hquiet with } fun i => hidle i (hlines i)
  | opened hphase hquiet hfresh hle hlines =>
    exact .opened hphase { hquiet with } hfresh (hle.trans hn) fun i => hok i _ _ (hlines i)
  | asked hphase hnew hkernel hresting hworker hrequests haccepted hrounds hfresh hlines =>
    exact .asked hphase hnew hkernel hresting hworker hrequests haccepted hrounds hfresh
      fun i => hok i _ _ (hlines i)
  | working hphase hturn hid hreply htold hbusy hrounds hlines =>
    exact .working hphase hturn hid hreply htold { hbusy with } hrounds
      fun i => hok i _ _ (hlines i)
  | settling hphase hturn hid hreply htold hbusy hrounds hnodup hlines =>
    exact .settling hphase hturn hid hreply htold { hbusy with } hrounds
      hnodup fun i => hok i _ _ (hlines i)
  | settled hphase hturn hbusy hround hrounds hid hdone hreply hlines =>
    exact .settled hphase hturn { hbusy with } hround hrounds hid
      (fun i => (hdone' i).trans (hdone i)) hreply fun i => hok i _ _ (hlines i)
  | completed hphase hturn hbusy hround hrounds hid hdone hreply hkernel hended hlines =>
    exact .completed hphase hturn { hbusy with } hround hrounds hid
      (fun i => (hdone' i).trans (hdone i)) hreply hkernel (fun i => hended' i (hended i))
      fun i => hok i _ _ (hlines i)
  | acked hphase hquiet hended hlines =>
    exact .acked hphase { hquiet with }
      (fun i => hended' i (hended i)) fun i => hok i _ _ (hlines i)

lemma Stage.flags (h : Stage s) {n : Nat} (hn : s.id ≤ n) (failed error alive fault forged : Bool)
    (refused : Option String) (last : Nat) :
    Stage { s with
      id := n, failed := failed, error := error, alive := alive, fault := fault,
      forged := forged, refused := refused, last := last } :=
  h.mono hn (fun _ => id) (fun _ _ _ => id) (fun _ => rfl) (fun _ => id) failed error alive fault
    forged refused last

lemma Stage.lines (h : Stage s) {lines : Stream → Line}
    (hidle : ∀ i, (s.lines i).Idle → (lines i).Idle)
    (hok : ∀ i m place, (s.lines i).Ok m place → (lines i).Ok m place)
    (hdone : ∀ i, (lines i).done = (s.lines i).done)
    (hended : ∀ i, (s.lines i).ended = true → (lines i).ended = true) :
    Stage { s with lines := lines } :=
  h.mono (Nat.le_refl _) hidle hok hdone hended s.failed s.error s.alive s.fault s.forged s.refused
    s.last

/-! ## The steps of the kernel -/

lemma Stage.idle_lines (h : Stage s) (hphase : s.phase = .idle) :
    Quiet s ∧ ∀ i, (s.lines i).Idle := by
  cases h with
  | idle _ hquiet hlines => exact ⟨hquiet, hlines⟩
  | opened hphase' | asked hphase' | working hphase' | settling hphase' | settled hphase'
  | completed hphase' | acked hphase' => cases hphase.symm.trans hphase'

lemma Inv.begin {nonce : Nonce} {source : Option String} (h : Inv s)
    (hstep : s.begin nonce source = some t) (hforged : t.forged = false) : Inv t := by
  unfold System.begin at hstep
  split_ifs at hstep with hrefused
  obtain ⟨-, hid⟩ := not_or.1 hrefused
  have hle : ∀ x ∈ s.requests, x ≤ s.id + 1 := fun x hx => (h.bound x hx).trans (Nat.le_succ _)
  dsimp only at hstep
  split at hstep
  · rename_i hphase
    obtain ⟨hquiet, hlines⟩ := h.stage.idle_lines hphase
    obtain rfl := Option.some.inj hstep
    obtain ⟨⟨-, hout⟩, herr⟩ : (s.forged = false ∧ _ = false) ∧ _ = false := by
      simpa only [Bool.or_eq_false_iff] using hforged
    refine ⟨h.sorted, hle, h.last, h.fault, h.refused, .opened rfl
      { hquiet with } ⟨Nat.succ_pos _, ?_, nonce.valid, ?_⟩ (Nat.le_refl _) fun i => ?_⟩
    · unfold maxId
      omega
    · intro x hx
      rw [← hquiet.requests] at hx
      exact Nat.lt_succ_of_le (h.bound x hx)
    · cases i with
      | stdout => exact (hlines _).begin _ _ _ hout
      | stderr => exact (hlines _).begin _ _ _ herr
  · obtain rfl := Option.some.inj hstep
    exact ⟨h.sorted, hle, h.last, h.fault, h.refused,
      h.stage.flags (Nat.le_succ _) s.failed s.error s.alive s.fault s.forged s.refused s.last⟩

lemma Inv.send (h : Inv s) (hstep : s.send = some t) : Inv t := by
  unfold System.send at hstep
  split at hstep
  · rename_i id nonce source hfailed hphase
    obtain rfl := Option.some.inj hstep
    cases h.stage with
    | opened hphase' hquiet hfresh hle hlines =>
      obtain ⟨rfl, rfl, rfl⟩ := Phase.opened.inj (hphase.symm.trans hphase')
      have hrequests : s.requests ++ [id] = ids s.reports ++ [id] := by rw [hquiet.requests]
      refine ⟨?_, ?_, h.last, h.fault, h.refused,
        .asked rfl ⟨rfl, rfl⟩ hquiet.toKernel hquiet.resting rfl hrequests hquiet.accepted
          hquiet.rounds hfresh hlines⟩
      · refine List.pairwise_append.2 ⟨h.sorted, List.pairwise_singleton _ _, ?_⟩
        intro x hx y hy
        obtain rfl := List.mem_singleton.1 hy
        exact hfresh.above x (hquiet.requests ▸ hx)
      · intro x hx
        obtain hx | hx := List.mem_append.1 hx
        · exact h.bound x hx
        · obtain rfl := List.mem_singleton.1 hx
          exact hle
    | idle hphase' | asked hphase' | working hphase' | settling hphase' | settled hphase'
    | completed hphase' | acked hphase' => cases hphase.symm.trans hphase'
  · cases hstep

/-- One stream is replaced by what keeps it. -/
lemma Inv.setLine {i : Stream} {ln : Line} (h : Inv s) (hidle : (s.lines i).Idle → ln.Idle)
    (hok : ∀ m place, (s.lines i).Ok m place → ln.Ok m place) (hdone : ln.done = (s.lines i).done)
    (hended : (s.lines i).ended = true → ln.ended = true) : Inv (s.setLine i ln) := by
  refine ⟨h.sorted, h.bound, h.last, h.fault, h.refused, h.stage.lines ?_ ?_ ?_ ?_⟩
  · intro j hj
    by_cases heq : j = i
    · rw [if_pos heq]
      exact hidle (heq ▸ hj)
    · rwa [if_neg heq]
  · intro j m place hj
    by_cases heq : j = i
    · rw [if_pos heq]
      exact hok m place (heq ▸ hj)
    · rwa [if_neg heq]
  · intro j
    by_cases heq : j = i
    · rw [if_pos heq, hdone, heq]
    · rw [if_neg heq]
  · intro j hj
    by_cases heq : j = i
    · rw [if_pos heq]
      exact hended (heq ▸ hj)
    · rwa [if_neg heq]

/-- What may fail does not matter to the invariant. -/
lemma Inv.flags (h : Inv s) (failed error alive forged : Bool) :
    Inv { s with failed := failed, error := error, alive := alive, forged := forged } :=
  ⟨h.sorted, h.bound, h.last, h.fault, h.refused,
    h.stage.flags (Nat.le_refl _) failed error alive s.fault forged s.refused s.last⟩

lemma Line.read_frame (ln : Line) (n : Nat) (room roomLate : Bool) :
    (ln.read n room roomLate).done = ln.done ∧ (ln.read n room roomLate).ended = ln.ended := by
  unfold Line.read
  dsimp only
  split
  · exact ⟨rfl, rfl⟩
  · split
    · exact ⟨rfl, rfl⟩
    · exact ⟨rfl, rfl⟩

lemma Inv.read {i : Stream} {n : Nat} {room roomLate : Bool} (h : Inv s)
    (hstep : s.read i n room roomLate = some t) : Inv t := by
  unfold System.read at hstep
  split_ifs at hstep with hreader
  obtain rfl := Option.some.inj hstep
  obtain ⟨hdone, hended⟩ := (s.lines i).read_frame n room roomLate
  have hset : Inv (s.setLine i ((s.lines i).read n room roomLate)) :=
    h.setLine (fun hidle => hidle.read n room roomLate)
      (fun m place hok => hok.read hreader n room roomLate) hdone (fun hend => hended.trans hend)
  exact hset.flags s.failed _ s.alive s.forged

lemma Inv.close {i : Stream} (h : Inv s) (hstep : s.close i = some t) : Inv t := by
  obtain rfl := Option.some.inj hstep
  have hset : Inv (s.setLine i { s.lines i with reader := false }) := h.setLine
    (fun hidle => ⟨hidle.capture, hidle.place, hidle.output, hidle.gap⟩)
    (fun m place ⟨hplace, c, hc, hcases⟩ => ⟨hplace, c, hc, hcases.imp
      (fun hopen => ⟨hopen.history, hopen.drained, hopen.early, hopen.late⟩)
      (fun hbroken => ⟨hbroken.capture, hbroken.ended, rfl⟩)⟩) rfl id
  exact hset.flags s.failed true s.alive s.forged

lemma Inv.pull {i : Stream} (h : Inv s) (hstep : s.pull i = some t) : Inv t := by
  unfold System.pull at hstep
  split at hstep
  · rename_i op c hfailed hphase hended hc
    obtain rfl := Option.some.inj hstep
    refine h.setLine (fun hidle => ?_) (fun m place hok => hok.pull hc) rfl (fun hend => ?_)
    · cases hc.symm.trans hidle.capture
    · cases hend.symm.trans hended
  · cases hstep

lemma Told.armed_eq {op : Operation} {input : Option Nat} (h : Told op input []) :
    op.armed = input.map (epoch, ·) := by
  cases h with
  | quiet harmed => exact harmed
  | armed harmed => exact harmed

/-- The head of what is on its way to the kernel before a settlement. -/
lemma Told.receive {op : Operation} {input : Option Nat} {value : Json} {queue rest : List Json}
    (h : Told op input queue) (hqueue : queue = value :: rest) (hreply : op.reply = none) :
    ∃ op', op.control value = .ok op' ∧ op'.id = op.id ∧ op'.reply = none ∧
      Told op' input rest := by
  cases h with
  | quiet harmed => cases hqueue
  | armed harmed => cases hqueue
  | coming hpos harmed =>
    obtain ⟨rfl, rfl⟩ := List.cons.inj hqueue
    exact ⟨_, control_armed hpos harmed hreply, rfl, hreply, .armed rfl⟩

lemma Inv.receive (h : Inv s) (hstep : s.receive = some t) : Inv t := by
  unfold System.receive at hstep
  split at hstep
  · rename_i op value rest hfailed hphase hqueue
    cases h.stage with
    | idle hphase' | opened hphase' | completed hphase' | acked hphase' =>
      cases hphase.symm.trans hphase'
    | asked hphase' hnew hkernel => cases hqueue.symm.trans hkernel
    | working hphase' hturn hid hreply htold hbusy hrounds hlines =>
      obtain rfl := Phase.running.inj (hphase.symm.trans hphase')
      obtain ⟨op', hcontrol, hid', hreply', htold'⟩ := htold.receive hqueue hreply
      rw [hcontrol] at hstep
      obtain rfl := Option.some.inj hstep
      rw [← hid'] at hid hbusy hlines
      exact ⟨h.sorted, h.bound, h.last, h.fault, h.refused, .working rfl hturn hid hreply' htold'
        { hbusy with } hrounds hlines⟩
    | settling hphase' hturn hid hreply htold hbusy hrounds hnodup hlines =>
      obtain rfl := Phase.running.inj (hphase.symm.trans hphase')
      obtain ⟨op', hcontrol, hid', hreply', htold'⟩ := htold.receive hqueue hreply
      rw [hcontrol] at hstep
      obtain rfl := Option.some.inj hstep
      rw [← hid'] at hid hbusy hlines hturn
      exact ⟨h.sorted, h.bound, h.last, h.fault, h.refused, .settling rfl hturn hid hreply' htold'
        { hbusy with } hrounds hnodup hlines⟩
    | settled hphase' hturn hbusy hround hrounds hid hdone hreply hlines =>
      obtain rfl := Phase.running.inj (hphase.symm.trans hphase')
      obtain ⟨-, hkernel⟩ | ⟨-, hkernel⟩ | ⟨hnone, input, o, queue, hmessage, htold, hkernel⟩ :=
        hreply
      · cases hqueue.symm.trans hkernel
      · cases hqueue.symm.trans hkernel
      · have hsplit := hqueue.symm.trans hkernel
        cases queue with
        | cons first more =>
          obtain ⟨rfl, rfl⟩ := List.cons.inj hsplit
          obtain ⟨op', hcontrol, hid', hreply', htold'⟩ := htold.receive rfl hnone
          rw [hcontrol] at hstep
          obtain rfl := Option.some.inj hstep
          rw [← hid'] at hid hbusy hlines hturn hmessage
          exact ⟨h.sorted, h.bound, h.last, h.fault, h.refused, .settled rfl hturn
            { hbusy with } hround hrounds hid hdone
            (.inr (.inr ⟨hreply', input, o, more, hmessage, htold', rfl⟩)) hlines⟩
        | nil =>
          obtain ⟨rfl, rfl⟩ := List.cons.inj hsplit
          rw [hmessage] at hstep
          obtain hok | ⟨e, herror, he⟩ := control_settled (o := o) htold.armed_eq hnone
          · rw [hok] at hstep
            obtain rfl := Option.some.inj hstep
            exact ⟨h.sorted, h.bound, h.last, h.fault, h.refused, .settled rfl hturn
              { hbusy with } hround hrounds hid hdone
              (.inl ⟨congrArg some hmessage.symm, rfl⟩) hlines⟩
          · rw [herror] at hstep
            obtain rfl := Option.some.inj hstep
            refine ⟨h.sorted, h.bound, h.last, h.fault, fun e' he' => ?_, .settled hphase hturn
              { hbusy with } hround hrounds hid hdone (.inr (.inl ⟨hnone, rfl⟩)) hlines⟩
            obtain rfl := Option.some.inj he'
            exact he
  · cases hstep

lemma Inv.complete (h : Inv s) (hstep : s.complete = some t) : Inv t := by
  unfold System.complete at hstep
  split at hstep
  · rename_i op hfailed hphase
    split_ifs at hstep with hends
    obtain ⟨hout, herr, hreplied⟩ := hends
    obtain rfl := Option.some.inj hstep
    have hended : ∀ i, (s.lines i).ended = true := fun i => by
      cases i with
      | stdout => exact hout
      | stderr => exact herr
    cases h.stage with
    | idle hphase' | opened hphase' | completed hphase' | acked hphase' =>
      cases hphase.symm.trans hphase'
    | asked hphase' hnew =>
      obtain rfl := Phase.running.inj (hphase.symm.trans hphase')
      rw [hnew.2] at hreplied
      cases hreplied
    | working hphase' _ _ hreply | settling hphase' _ _ hreply =>
      obtain rfl := Phase.running.inj (hphase.symm.trans hphase')
      rw [hreply] at hreplied
      cases hreplied
    | settled hphase' hturn hbusy hround hrounds hid hdone hreply hlines =>
      obtain rfl := Phase.running.inj (hphase.symm.trans hphase')
      obtain ⟨hreply, hkernel⟩ | ⟨hnone, -⟩ | ⟨hnone, -⟩ := hreply
      · exact ⟨h.sorted, h.bound, h.last, h.fault, h.refused, .completed rfl hturn
          { hbusy with } hround hrounds hid hdone hreply hkernel hended hlines⟩
      · rw [hnone] at hreplied
        cases hreplied
      · rw [hnone] at hreplied
        cases hreplied
  · cases hstep

lemma ids_append (l : List Report) (p : Report) : ids (l ++ [p]) = ids l ++ [p.id] := by simp [ids]

/-- What the report of an operation says of its streams. -/
lemma delivered_report {op : Operation} {nonce : List Char} {r : Round} (hid : r.id = op.id)
    (hdone : ∀ i, (s.lines i).done = (r.gap i, r.output i)) (hreply : op.reply = some r.reply)
    (hended : ∀ i, (s.lines i).ended = true)
    (hlines : ∀ i, (s.lines i).Ok (marker op.id nonce i) .past) : Delivered r (s.report op) := by
  refine ⟨hid, ?_, fun i => ?_⟩
  · rw [System.report, hreply]
    rfl
  · obtain ⟨c, lost, stray, hc, hgap, -, hsunk, hdiscarded, -⟩ := (hlines i).delivered (hended i)
    rw [hdone i] at hgap hsunk hdiscarded
    refine ⟨lost, stray, hgap, hsunk, ?_⟩
    change ((s.lines i).capture.map (·.discarded)).getD 0 = _
    rw [hc]
    exact hdiscarded

lemma Inv.acknowledge (h : Inv s) (hstep : s.acknowledge = some t) : Inv t := by
  unfold System.acknowledge at hstep
  split at hstep
  · rename_i op hfailed hphase
    obtain rfl := Option.some.inj hstep
    cases h.stage with
    | idle hphase' | opened hphase' | asked hphase' | working hphase' | settling hphase'
    | settled hphase' | acked hphase' => cases hphase.symm.trans hphase'
    | completed hphase' hturn hbusy hround hrounds hid hdone hreply hkernel hended hlines =>
      obtain rfl := Phase.completed.inj (hphase.symm.trans hphase')
      have hids : ids (s.reports ++ [s.report op]) = ids s.reports ++ [op.id] := ids_append _ _
      refine ⟨h.sorted, h.bound, h.last, h.fault, h.refused, .acked rfl ⟨hkernel, ?_, ?_, ?_, ?_⟩
        hended hlines⟩
      · change Resting (ids (s.reports ++ [s.report op])) s.acks s.turn (s.toWorker ++ [ToWorker.ack op.id])
        rw [hids, hturn, hbusy.toWorker, hbusy.acks]
        exact .awaiting _ rfl
      · exact hbusy.requests.trans hids.symm
      · exact hbusy.accepted.trans hids.symm
      · change List.Forall₂ Delivered s.rounds (s.reports ++ [s.report op])
        rw [hround]
        exact List.rel_append hrounds (.cons (delivered_report hid hdone hreply hended hlines) .nil)
  · cases hstep

lemma Inv.clear (h : Inv s) (hstep : s.clear = some t) : Inv t := by
  unfold System.clear at hstep
  split at hstep
  · rename_i op hphase
    obtain rfl := Option.some.inj hstep
    cases h.stage with
    | idle hphase' | opened hphase' | asked hphase' | working hphase' | settling hphase'
    | settled hphase' | completed hphase' => cases hphase.symm.trans hphase'
    | acked hphase' hquiet hended hlines =>
      exact ⟨h.sorted, h.bound, h.last, h.fault, h.refused, .idle rfl
        { hquiet with } fun i => (hlines i).clear (hended i)⟩
  · cases hstep

lemma Inv.fail (h : Inv s) (hstep : s.fail = some t) : Inv t := by
  unfold System.fail at hstep
  split at hstep
  · cases hstep
  · obtain rfl := Option.some.inj hstep
    exact h.flags true s.error s.alive s.forged

/-! ## The steps of the worker -/

lemma Resting.of_waiting {done acks : List Nat} {turn : Turn} {queue : List ToWorker}
    (h : Resting done acks turn queue) (hturn : turn = .waiting) : acks = done ∧ queue = [] := by
  cases h with
  | waiting => exact ⟨rfl, rfl⟩
  | awaiting | gone => cases hturn

lemma Resting.of_awaiting {done acks : List Nat} {turn : Turn} {queue : List ToWorker} {id : Nat}
    {retire : Bool} (h : Resting done acks turn queue) (hturn : turn = .awaiting id retire) :
    done = acks ++ [id] ∧ queue = [.ack id] := by
  cases h with
  | waiting | gone => cases hturn
  | awaiting _ hdone =>
    obtain ⟨rfl, -⟩ := Turn.awaiting.inj hturn
    exact ⟨hdone, rfl⟩

lemma Resting.rests {done acks : List Nat} {turn : Turn} {queue : List ToWorker}
    (h : Resting done acks turn queue) : (∀ r, turn ≠ .working r) ∧
      ∀ r reply retire left, turn ≠ .settling r reply retire left := by
  cases h with
  | waiting | awaiting | gone => exact ⟨nofun, nofun⟩

/-- What a waiting worker finds is the request of the operation at hand. -/
lemma Stage.request (h : Stage s) (hturn : s.turn = .waiting) {value : ToWorker}
    {rest : List ToWorker} (hqueue : s.toWorker = value :: rest) :
    ∃ op nonce source, value = .request op.id nonce source ∧ rest = [] ∧ s.phase = .running op ∧
      (op.armed = none ∧ op.reply = none) ∧ s.toKernel = [] ∧ s.acks = ids s.reports ∧
        s.requests = ids s.reports ++ [op.id] ∧ s.accepted = ids s.reports ∧
          List.Forall₂ Delivered s.rounds s.reports ∧ Fresh op.id nonce (ids s.reports) ∧
            ∀ i, (s.lines i).Ok (marker op.id nonce i) .before := by
  cases h with
  | idle _ hquiet | opened _ hquiet | acked _ hquiet =>
    cases hqueue.symm.trans (hquiet.resting.of_waiting hturn).2
  | asked hphase hnew hkernel hresting hworker hrequests haccepted hrounds hfresh hlines =>
    obtain ⟨hacks, rfl⟩ := hresting.of_waiting hturn
    obtain ⟨rfl, rfl⟩ := List.cons.inj (hqueue.symm.trans hworker)
    exact ⟨_, _, _, rfl, rfl, hphase, hnew, hkernel, hacks, hrequests, haccepted, hrounds, hfresh,
      hlines⟩
  | working _ hturn' | settling _ hturn' | settled _ hturn' | completed _ hturn' =>
    cases hturn.symm.trans hturn'

lemma Inv.accept (h : Inv s) (hstep : s.accept = some t) : Inv t := by
  unfold System.accept at hstep
  split at hstep
  · rename_i id nonce source rest halive hturn hqueue
    obtain ⟨op, nonce', source', hvalue, rfl, hphase, hnew, hkernel, hacks, hrequests, haccepted,
      hrounds, hfresh, hlines⟩ := h.stage.request hturn hqueue
    obtain ⟨rfl, rfl, rfl⟩ := ToWorker.request.inj hvalue
    have hlast : s.last < op.id := by
      obtain hzero | hmem := h.last
      · rw [hzero]
        exact hfresh.pos
      · exact hfresh.above _ (haccepted ▸ hmem)
    rw [if_pos ⟨hlast, hfresh.le, hfresh.nonce⟩] at hstep
    obtain rfl := Option.some.inj hstep
    refine ⟨h.sorted, h.bound, .inr (by simp), h.fault, h.refused, .working hphase rfl rfl hnew.2 ?_
      ⟨rfl, hacks, hrequests, ?_⟩ hrounds fun i => (hlines i).accept⟩
    · change Told op none s.toKernel
      rw [hkernel]
      exact .quiet hnew.1
    · change s.accepted ++ [op.id] = _
      rw [haccepted]
  · rename_i id rest halive hturn hqueue
    obtain ⟨op, nonce, source, hvalue, -⟩ := h.stage.request hturn hqueue
    cases hvalue
  · cases hstep

lemma Line.write_frame (ln : Line) (b : Bytes) :
    (ln.write b).done = ln.done ∧ (ln.write b).ended = ln.ended := by
  unfold Line.write
  split
  · exact ⟨rfl, rfl⟩
  · exact ⟨rfl, rfl⟩

lemma Inv.write {i : Stream} {b : Bytes} (h : Inv s) (hstep : s.write i b = some t)
    (hforged : t.forged = false) : Inv t := by
  obtain rfl := Option.some.inj hstep
  obtain ⟨hdone, hended⟩ := (s.lines i).write_frame b
  have hset : Inv (s.setLine i ((s.lines i).write b)) := h.setLine (fun hidle => hidle.write b)
    (fun m place hok => hok.write b (Bool.or_eq_false_iff.1 hforged).2) hdone
    (fun hend => hended.trans hend)
  exact hset.flags s.failed s.error s.alive _

/-- What a working worker is at. -/
lemma Stage.at_work (h : Stage s) {r : Accepted} (hturn : s.turn = .working r) :
    ∃ op, s.phase = .running op ∧ r.id = op.id ∧ op.reply = none ∧ Told op r.input s.toKernel ∧
      Busy s op.id ∧ List.Forall₂ Delivered s.rounds s.reports ∧
        ∀ i, (s.lines i).Ok (marker op.id r.nonce i) .during := by
  cases h with
  | idle _ hquiet | opened _ hquiet | acked _ hquiet =>
    exact absurd hturn (hquiet.resting.rests.1 r)
  | asked _ _ _ hresting => exact absurd hturn (hresting.rests.1 r)
  | working hphase hturn' hid hreply htold hbusy hrounds hlines =>
    obtain rfl := Turn.working.inj (hturn.symm.trans hturn')
    exact ⟨_, hphase, hid, hreply, htold, hbusy, hrounds, hlines⟩
  | settling _ hturn' | settled _ hturn' | completed _ hturn' => cases hturn.symm.trans hturn'

lemma Inv.arm {input : Nat} (h : Inv s) (hstep : s.arm input = some t) : Inv t := by
  unfold System.arm at hstep
  split at hstep
  · rename_i id nonce source halive hturn
    split_ifs at hstep with hpos
    obtain ⟨op, hphase, hid, hreply, htold, hbusy, hrounds, hlines⟩ := h.stage.at_work hturn
    obtain rfl := Option.some.inj hstep
    have htold : Told op (some input) (s.toKernel ++ [armedMessage id input]) := by
      dsimp only at htold hid
      generalize s.toKernel = queue at htold ⊢
      cases htold with
      | quiet harmed =>
        rw [hid]
        exact .coming hpos harmed
    exact ⟨h.sorted, h.bound, h.last, h.fault, h.refused, .working hphase rfl hid hreply htold
      { hbusy with } hrounds hlines⟩
  · cases hstep

lemma Inv.finish {o : Outcome} (h : Inv s) (hstep : s.finish o = some t) : Inv t := by
  unfold System.finish at hstep
  split at hstep
  · rename_i r halive hturn
    obtain ⟨op, hphase, hid, hreply, htold, hbusy, hrounds, hlines⟩ := h.stage.at_work hturn
    obtain rfl := Option.some.inj hstep
    refine ⟨h.sorted, h.bound, h.last, h.fault, h.refused, .settling hphase (by rw [hid]) hid hreply
      htold { hbusy with } hrounds (by decide) fun i => ?_⟩
    rw [if_pos (by cases i <;> decide)]
    exact hlines i
  · cases hstep

/-- What a settling worker is at. -/
lemma Stage.at_settlement (h : Stage s) {r : Accepted} {reply : Json} {retire : Bool}
    {left : List Stream} (hturn : s.turn = .settling r reply retire left) :
    ∃ op o, s.phase = .running op ∧ reply = settledMessage op.id r.input o ∧ r.id = op.id ∧
      op.reply = none ∧ Told op r.input s.toKernel ∧ Busy s op.id ∧
        List.Forall₂ Delivered s.rounds s.reports ∧ left.Nodup ∧
          ∀ i, (s.lines i).Ok (marker op.id r.nonce i) (if i ∈ left then .during else .past) := by
  cases h with
  | idle _ hquiet | opened _ hquiet | acked _ hquiet =>
    exact absurd hturn (hquiet.resting.rests.2 _ _ _ _)
  | asked _ _ _ hresting => exact absurd hturn (hresting.rests.2 _ _ _ _)
  | settling hphase hturn' hid hreply htold hbusy hrounds hnodup hlines =>
    obtain ⟨rfl, rfl, rfl, rfl⟩ := Turn.settling.inj (hturn.symm.trans hturn')
    exact ⟨_, _, hphase, rfl, hid, hreply, htold, hbusy, hrounds, hnodup, hlines⟩
  | working _ hturn' | settled _ hturn' | completed _ hturn' => cases hturn.symm.trans hturn'

lemma Inv.bar (h : Inv s) (hstep : s.bar = some t) (hforged : t.forged = false) : Inv t := by
  unfold System.bar at hstep
  split at hstep
  · rename_i r reply retire i left halive hturn
    obtain ⟨op, o, hphase, rfl, hid, hreply, htold, hbusy, hrounds, hnodup, hlines⟩ :=
      h.stage.at_settlement hturn
    obtain rfl := Option.some.inj hstep
    obtain ⟨hnot, hnodup⟩ := List.nodup_cons.1 hnodup
    have hforged : (s.lines i).forges (marker op.id r.nonce i) = false := by
      have := (Bool.or_eq_false_iff.1 hforged).2
      rwa [hid] at this
    refine ⟨h.sorted, h.bound, h.last, h.fault, h.refused, .settling hphase rfl hid hreply htold
      { hbusy with } hrounds hnodup fun j => ?_⟩
    have hj := hlines j
    change (if j = i then _ else s.lines j).Ok _ _
    by_cases heq : j = i
    · subst heq
      rw [if_pos List.mem_cons_self] at hj
      rw [if_pos rfl, if_neg hnot, hid]
      exact hj.bar hforged
    · rw [if_neg heq]
      simpa [heq] using hj
  · cases hstep

lemma Inv.settle (h : Inv s) (hstep : s.settle = some t) : Inv t := by
  unfold System.settle at hstep
  split at hstep
  · rename_i r reply retire halive hturn
    obtain ⟨op, o, hphase, rfl, hid, hreply, htold, hbusy, hrounds, hnodup, hlines⟩ :=
      h.stage.at_settlement hturn
    obtain rfl := Option.some.inj hstep
    have hpast : ∀ i, (s.lines i).Ok (marker op.id r.nonce i) .past := fun i => by
      have hi := hlines i
      rwa [if_neg List.not_mem_nil] at hi
    exact ⟨h.sorted, h.bound, h.last, h.fault, h.refused, .settled hphase (by rw [hid])
      { hbusy with } rfl hrounds hid (fun i => rfl)
      (.inr (.inr ⟨hreply, r.input, o, s.toKernel, rfl, htold, rfl⟩)) hpast⟩
  · cases hstep

/-- What an awaiting worker finds is the acknowledgement it awaits. -/
lemma Stage.acknowledgement (h : Stage s) {id : Nat} {retire : Bool}
    (hturn : s.turn = .awaiting id retire) {value : ToWorker} {rest : List ToWorker}
    (hqueue : s.toWorker = value :: rest) :
    value = .ack id ∧ Stage { s with
      toWorker := rest
      turn := if retire = true then .gone else .waiting
      acks := s.acks ++ [id] } := by
  have hnext : ∀ done : List Nat, done = s.acks ++ [id] →
      Resting done (s.acks ++ [id]) (if retire = true then .gone else .waiting) [] := by
    rintro done rfl
    split_ifs
    · exact .gone
    · exact .waiting
  have hquiet : Quiet s → value = .ack id ∧ Quiet { s with
      toWorker := rest
      turn := if retire = true then .gone else .waiting
      acks := s.acks ++ [id] } := by
    intro hquiet
    obtain ⟨hdone, hack⟩ := hquiet.resting.of_awaiting hturn
    obtain ⟨rfl, rfl⟩ := List.cons.inj (hqueue.symm.trans hack)
    exact ⟨rfl, hquiet.toKernel, hnext _ hdone, hquiet.requests, hquiet.accepted, hquiet.rounds⟩
  cases h with
  | idle hphase hq hlines =>
    obtain ⟨hvalue, hq⟩ := hquiet hq
    exact ⟨hvalue, .idle hphase hq hlines⟩
  | opened hphase hq hfresh hle hlines =>
    obtain ⟨hvalue, hq⟩ := hquiet hq
    exact ⟨hvalue, .opened hphase hq hfresh hle hlines⟩
  | acked hphase hq hended hlines =>
    obtain ⟨hvalue, hq⟩ := hquiet hq
    exact ⟨hvalue, .acked hphase hq hended hlines⟩
  | asked hphase hnew hkernel hresting hworker hrequests haccepted hrounds hfresh hlines =>
    obtain ⟨hdone, rfl⟩ := hresting.of_awaiting hturn
    obtain ⟨rfl, rfl⟩ := List.cons.inj (hqueue.symm.trans hworker)
    exact ⟨rfl, .asked hphase hnew hkernel (hnext _ hdone) rfl hrequests haccepted hrounds hfresh
      hlines⟩
  | working _ hturn' | settling _ hturn' => cases hturn.symm.trans hturn'
  | settled _ _ hbusy | completed _ _ hbusy => cases hqueue.symm.trans hbusy.toWorker

lemma Inv.resume (h : Inv s) (hstep : s.resume = some t) : Inv t := by
  unfold System.resume at hstep
  split at hstep
  · rename_i id retire n rest halive hturn hqueue
    obtain ⟨hvalue, hstage⟩ := h.stage.acknowledgement hturn hqueue
    obtain rfl := ToWorker.ack.inj hvalue
    rw [if_pos rfl] at hstep
    obtain rfl := Option.some.inj hstep
    exact ⟨h.sorted, h.bound, h.last, h.fault, h.refused, hstage⟩
  · rename_i id retire n nonce source rest halive hturn hqueue
    cases (h.stage.acknowledgement hturn hqueue).1
  · cases hstep

lemma Inv.die (h : Inv s) (hstep : s.die = some t) : Inv t := by
  obtain rfl := Option.some.inj hstep
  exact h.flags s.failed s.error false s.forged

/-! ## Every run -/

lemma inv_new : Inv .new := by
  refine ⟨.nil, nofun, .inl rfl, rfl, nofun, .idle rfl ⟨rfl, .waiting, rfl, rfl, .nil⟩ fun i => ?_⟩
  exact ⟨rfl, rfl, rfl, [], rfl⟩

/-- No step takes back that a marker was forged. -/
lemma forged_of_next {e : Event} (h : next s e = some t) (hforged : t.forged = false) :
    s.forged = false := by
  cases e <;> simp only [next, System.begin, System.send, System.read, System.close, System.pull,
    System.receive, System.complete, System.acknowledge, System.clear, System.fail, System.accept,
    System.write, System.arm, System.finish, System.bar, System.settle, System.resume, System.die,
    System.setLine] at h <;> grind

lemma Inv.next {e : Event} (h : Inv s) (hstep : next s e = some t) (hforged : t.forged = false) :
    Inv t := by
  cases e with
  | begin nonce source => exact h.begin hstep hforged
  | send => exact h.send hstep
  | read i n room roomLate => exact h.read hstep
  | close i => exact h.close hstep
  | pull i => exact h.pull hstep
  | receive => exact h.receive hstep
  | complete => exact h.complete hstep
  | acknowledge => exact h.acknowledge hstep
  | clear => exact h.clear hstep
  | fail => exact h.fail hstep
  | accept => exact h.accept hstep
  | write i b => exact h.write hstep hforged
  | arm input => exact h.arm hstep
  | finish o => exact h.finish hstep
  | bar => exact h.bar hstep hforged
  | settle => exact h.settle hstep
  | resume => exact h.resume hstep
  | die => exact h.die hstep

lemma reachable_inv (h : machine.Reachable s) : s.forged = false → Inv s := by
  refine h.invariant (P := fun s => s.forged = false → Inv s) ?_ ?_
  · rintro _ rfl _
    exact inv_new
  · intro u e t o hu hstep hforged
    obtain ⟨t', hnext, heq⟩ := Option.map_eq_some_iff.1 hstep
    obtain ⟨rfl, -⟩ := Prod.mk.inj heq
    exact (hu (forged_of_next hnext hforged)).next hnext hforged

/-- What the two promise each other. -/
structure Safe (s : System) : Prop where
  sorted : s.requests.Pairwise (· < ·)
  accepted : s.accepted <+: s.requests
  settled : s.rounds.map (·.id) <+: s.accepted
  acknowledged : s.reports.map (·.id) <+: s.rounds.map (·.id)
  acks : s.acks <+: s.reports.map (·.id)
  /-- At most one operation is outstanding. -/
  outstanding : s.requests.length ≤ s.reports.length + 1
  /-- The worker starts no operation before it has the acknowledgement of the last. -/
  turns : s.accepted.length ≤ s.acks.length + 1
  /-- The operations that are acknowledged have delivered what the worker settled. -/
  delivered : ∃ rest, ∃ base, s.rounds = base ++ rest ∧ List.Forall₂ Delivered base s.reports
  fault : s.fault = false
  refused : ∀ e, s.refused = some e → Refusable e

lemma map_ids {base : List Round} {reports : List Report}
    (h : List.Forall₂ Delivered base reports) : base.map (·.id) = ids reports := by
  induction h with
  | nil => rfl
  | cons hd _ ih => simp [ids, hd.id_eq, ih]

lemma Resting.prefix_length {done acks : List Nat} {turn : Turn} {queue : List ToWorker}
    (h : Resting done acks turn queue) : acks <+: done ∧ done.length ≤ acks.length + 1 := by
  cases h with
  | waiting | gone => exact ⟨List.prefix_rfl, Nat.le_succ _⟩
  | awaiting _ hdone =>
    rw [hdone, List.length_append, List.length_singleton]
    exact ⟨List.prefix_append _ _, Nat.le_refl _⟩

lemma Inv.safe_of (h : Inv s) {base rest : List Round} (hround : s.rounds = base ++ rest)
    (hrounds : List.Forall₂ Delivered base s.reports)
    (hsettled : ids s.reports ++ rest.map (·.id) <+: s.accepted)
    (haccepted : s.accepted <+: s.requests) (hacks : s.acks <+: ids s.reports)
    (houtstanding : s.requests.length ≤ s.reports.length + 1)
    (hturns : s.accepted.length ≤ s.acks.length + 1) : Safe s := by
  refine ⟨h.sorted, haccepted, ?_, ?_, hacks, houtstanding, hturns, ⟨rest, base, hround, hrounds⟩,
    h.fault, h.refused⟩
  · rwa [hround, List.map_append, map_ids hrounds]
  · rw [hround, List.map_append, map_ids hrounds]
    exact List.prefix_append _ _

lemma length_ids (l : List Report) : (ids l).length = l.length := List.length_map ..

lemma Inv.safe_quiet (h : Inv s) (hquiet : Quiet s) : Safe s := by
  obtain ⟨hacks, hlength⟩ := hquiet.resting.prefix_length
  have hreports := length_ids s.reports
  refine h.safe_of (List.append_nil _).symm hquiet.rounds ?_ ?_ hacks ?_ ?_
  · rw [hquiet.accepted]
    simp
  · rw [hquiet.accepted, hquiet.requests]
  · rw [hquiet.requests]
    omega
  · rw [hquiet.accepted]
    exact hlength

lemma Inv.safe_busy (h : Inv s) {id : Nat} (hbusy : Busy s id) {base rest : List Round}
    (hround : s.rounds = base ++ rest) (hrounds : List.Forall₂ Delivered base s.reports)
    (hrest : rest.map (·.id) <+: [id]) : Safe s := by
  have hreports := length_ids s.reports
  refine h.safe_of hround hrounds ?_ ?_ ?_ ?_ ?_
  · rw [hbusy.accepted]
    exact (List.prefix_append_right_inj _).2 hrest
  · rw [hbusy.accepted, hbusy.requests]
  · rw [hbusy.acks]
  · rw [hbusy.requests, List.length_append, List.length_singleton, hreports]
  · rw [hbusy.accepted, hbusy.acks, List.length_append, List.length_singleton]

lemma Inv.safe (h : Inv s) : Safe s := by
  cases h.stage with
  | idle _ hquiet | opened _ hquiet | acked _ hquiet => exact h.safe_quiet hquiet
  | asked _ _ _ hresting _ hrequests haccepted hrounds =>
    obtain ⟨hacks, hlength⟩ := hresting.prefix_length
    have hreports := length_ids s.reports
    refine h.safe_of (List.append_nil _).symm hrounds ?_ ?_ hacks ?_ ?_
    · rw [haccepted]
      simp
    · rw [haccepted, hrequests]
      exact List.prefix_append _ _
    · rw [hrequests, List.length_append, List.length_singleton, hreports]
    · rw [haccepted]
      exact hlength
  | working _ _ _ _ _ hbusy hrounds | settling _ _ _ _ _ hbusy hrounds =>
    exact h.safe_busy hbusy (List.append_nil _).symm hrounds (by simp)
  | settled _ _ hbusy hround hrounds hid | completed _ _ hbusy hround hrounds hid =>
    exact h.safe_busy hbusy hround hrounds (by simp [hid])

/-- **The worker's protocol**: in every run, whatever the order of the steps and however the streams
are split, requests have increasing identities and at most one is outstanding; the worker starts
one only when it has the acknowledgement of the last; it is acknowledged only when it was settled,
with its settlement and its output delivered: what was written to each stream from the acceptance of
the request to its barrier, after what was on its way before, up to the limit of a capture.  Neither
of the two refuses a message of the other, unless a result or a failure in it is over its bounds. -/
theorem worker_protocol (h : machine.Reachable s) (hforged : s.forged = false) : Safe s :=
  (reachable_inv h hforged).safe

/-- The nonce of the example. -/
def sampleNonce : Nonce := ⟨List.replicate 64 'a', by decide⟩

/-- An operation from its beginning to its acknowledgement. -/
def sampleSteps : List Event :=
  [.begin sampleNonce (some "1"), .send, .accept, .arm 1, .write .stdout [104, 105],
    .read .stdout 1 true true, .pull .stdout, .receive, .finish ⟨some "1", none, .null, false⟩,
    .bar, .bar, .settle, .receive, .read .stderr 8192 true true, .pull .stderr,
    .read .stdout 8192 true true, .pull .stdout, .pull .stdout, .complete, .acknowledge, .resume,
    .clear]

theorem worker_protocol_settled :
    ∃ s, machine.exec .new sampleSteps = some s ∧ s.reports.length = 1 ∧ Safe s := by
  obtain ⟨s, hs⟩ : ∃ s, machine.exec .new sampleSteps = some s := ⟨_, rfl⟩
  have hrun : (machine.exec .new sampleSteps).map (fun s => (s.forged, s.reports.length)) =
      some (false, 1) := rfl
  rw [hs] at hrun
  obtain ⟨hforged, hreports⟩ := Prod.mk.inj (Option.some.inj hrun)
  exact ⟨s, hs, hreports, worker_protocol (.exec rfl hs) hforged⟩

end Jupyter.Worker

end Rnx
