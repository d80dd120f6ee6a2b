import Rnx.Jupyter.Kernel
import Rnx.Lib.Ledger

/-!
# The courses of requests

What the log says about one request, apart from the contents of messages, is a list of marks.  Each
computation of the kernel writes marks of one kind or another; a request that is over has one of the
courses, and one that is not is at a place in one.
-/

namespace Rnx

open ErrState

namespace Jupyter.Kernel

/-! ## Marks -/

/-- What an entry of the log says about a request. -/
inductive Mark
  | arrived (execute : Bool)
  | admitted
  | executed
  | started (store : Bool)
  | aborted
  | busy
  | idle
  | reply (kind : MsgType)
  | closed
  | unsent
  | failed
  | abandoned
  | left
deriving DecidableEq, Repr

/-- The mark of a status. -/
def Status.mark : Status → Mark
  | .busy => .busy
  | .idle => .idle

/-- The request an entry is about, and its mark. -/
def Entry.mark : Entry → Option (Nat × Mark)
  | .arrived parent execute => some (parent.arrival, .arrived execute)
  | .iopub (some parent) (.status state) _ _ => some (parent.arrival, state.mark)
  | .iopub _ _ _ _ => none
  | .reply parent kind _ _ => some (parent.arrival, .reply kind)
  | .closed parent => some (parent.arrival, .closed)
  | .unsent parent => some (parent.arrival, .unsent)
  | .admitted parent => some (parent.arrival, .admitted)
  | .executed parent => some (parent.arrival, .executed)
  | .started parent store => some (parent.arrival, .started store)
  | .aborted parent => some (parent.arrival, .aborted)
  | .failed parent _ => some (parent.arrival, .failed)
  | .abandoned parent => some (parent.arrival, .abandoned)
  | .left parent => some (parent.arrival, .left)

/-- The marks of a log. -/
def marks (log : List Entry) : List (Nat × Mark) := log.filterMap Entry.mark

@[simp] lemma marks_append (l l' : List Entry) : marks (l ++ l') = marks l ++ marks l' :=
  List.filterMap_append

/-- An answer: a reply of the kind, or none because the connection is closed. -/
def Mark.Answers (kind : MsgType) (m : Mark) : Prop := m = .reply kind ∨ m = .closed

/-- How far the busy status, the answer and the idle status have come. -/
inductive Bracket (kind : MsgType) : List Mark → Prop
  | none : Bracket kind []
  | busy : Bracket kind [.busy]
  | answered {a : Mark} (answers : a.Answers kind) : Bracket kind [.busy, a]
  | idle {a : Mark} (answers : a.Answers kind) : Bracket kind [.busy, a, .idle]

/-- The busy status, the answer and the idle status. -/
inductive Served (kind : MsgType) : List Mark → Prop
  | mk {a : Mark} (answers : a.Answers kind) : Served kind [.busy, a, .idle]

/-- An answer, within a busy and an idle status or without. -/
inductive Informed : List Mark → Prop
  | bracketed {kind : MsgType} {ms : List Mark} (served : Served kind ms) : Informed ms
  | plain {kind : MsgType} {a : Mark} (answers : a.Answers kind) : Informed [a]

/-- An answer and the statuses around it, as far as they have come. -/
inductive Informing : List Mark → Prop
  | bracket {kind : MsgType} {ms : List Mark} (bracket : Bracket kind ms) : Informing ms
  | plain {kind : MsgType} {a : Mark} (answers : a.Answers kind) : Informing [a]

variable {kind : MsgType} {p : Parent} {ms l l' : List Mark} {o : Calls} {out out' : Output}

lemma Served.bracket (h : Served kind ms) : Bracket kind ms := by
  cases h with
  | mk answers => exact .idle answers

/-! ## What the computations write -/

/-- The marks an output has more than another, all about one request. -/
def Wrote (p : Parent) (out out' : Output) (ms : List Mark) : Prop :=
  marks out'.log = marks out.log ++ ms.map (p.arrival, ·)

/-- The computation writes marks about the request: of one kind if it returns, of the other if it
fails. -/
def Writes (p : Parent) (m : ErrState String Output Unit) (G B : List Mark → Prop) : Prop :=
  ∀ out, wp m (fun _ out' => ∃ ms, G ms ∧ Wrote p out out' ms)
    (fun _ out' => ∃ ms, B ms ∧ Wrote p out out' ms) out

lemma Wrote.trans {out'' : Output} (h : Wrote p out out' l) (h' : Wrote p out' out'' l') :
    Wrote p out out'' (l ++ l') := by
  unfold Wrote at *
  rw [h', h, List.append_assoc, List.map_append]

lemma Wrote.same (h : out'.log = out.log) : Wrote p out out' [] := by
  unfold Wrote
  rw [h, List.map_nil, List.append_nil]

namespace Writes

variable {m f : ErrState String Output Unit} {G B G' B' : List Mark → Prop}

lemma mono (h : Writes p m G B) (hgood : ∀ ms, G ms → G' ms)
    (hbad : ∀ ms, B ms → B' ms) : Writes p m G' B' := by
  intro out
  refine wp_mono (h out) ?_ ?_
  · rintro - t ⟨ms, hms, hw⟩
    exact ⟨ms, hgood ms hms, hw⟩
  · rintro - t ⟨ms, hms, hw⟩
    exact ⟨ms, hbad ms hms, hw⟩

lemma seq (hm : Writes p m G B)
    (hf : ∀ l, G l → Writes p f (fun ms => G' (l ++ ms)) fun ms => B' (l ++ ms))
    (hbad : ∀ ms, B ms → B' ms) : Writes p (m >>= fun _ => f) G' B' := by
  intro out
  refine wp_seq (hm out) ?_ ?_
  · rintro - t ⟨ms, hms, hw⟩
    exact ⟨ms, hbad ms hms, hw⟩
  · rintro - t ⟨l, hl, hw⟩
    refine wp_mono (hf l hl t) ?_ ?_
    · rintro - u ⟨ms, hms, hw'⟩
      exact ⟨_, hms, hw.trans hw'⟩
    · rintro - u ⟨ms, hms, hw'⟩
      exact ⟨_, hms, hw.trans hw'⟩

lemma get {k : Output → ErrState String Output Unit} (h : ∀ out, Writes p (k out) G B) :
    Writes p (ErrState.get >>= k) G B := fun out => wp_get_bind.2 (h out out)

lemma fail (e : String) (h : B []) : Writes p (.fail e) G B :=
  fun _ => ⟨[], h, Wrote.same rfl⟩

lemma ofExcept (r : Outcome) (hgood : G []) (hbad : B []) : Writes p (.ofExcept r) G B :=
  fun _ => wp_ofExcept (fun _ _ => ⟨[], hbad, Wrote.same rfl⟩) fun _ _ =>
    ⟨[], hgood, Wrote.same rfl⟩

lemma update {g : Output → Output} (hlog : ∀ out, (g out).log = out.log) (h : G []) :
    Writes p (.update g) G B := fun out => ⟨[], h, Wrote.same (hlog out)⟩

lemma skip (h : G []) : Writes p (pure ()) G B := fun _ => ⟨[], h, Wrote.same rfl⟩

lemma onlyIf {c : Bool} (hm : c = true → Writes p m G B) (hskip : c = false → G []) :
    Writes p (Output.onlyIf c m) G B := by
  unfold Output.onlyIf
  cases c with
  | true => exact hm rfl
  | false => exact skip (hskip rfl)

/-- An entry with a mark. -/
lemma record {entry : Entry} {mark : Mark} (he : entry.mark = some (p.arrival, mark))
    (h : G [mark]) : Writes p (Output.record entry) G B := by
  intro out
  refine ⟨[mark], h, ?_⟩
  change marks (out.log ++ [entry]) = _
  rw [marks_append]
  simp [marks, he]

/-- An entry without one. -/
lemma recordNone {entry : Entry} (he : entry.mark = none) (h : G []) :
    Writes p (Output.record entry) G B := by
  intro out
  refine ⟨[], h, ?_⟩
  change marks (out.log ++ [entry]) = _
  rw [marks_append]
  simp [marks, he]

end Writes

lemma publishLocked_plain {kind : MsgType} (hkind : ∀ state, kind ≠ .status state) (r : Outcome)
    (parent : Option Parent) (metadata content : Json) :
    Writes p (Output.publishLocked r parent kind metadata content) (· = []) (· = []) := by
  refine .seq (.ofExcept (G := (· = [])) (B := (· = [])) r rfl rfl) ?_ fun _ h => h
  rintro _ rfl
  refine .recordNone ?_ rfl
  cases parent with
  | none => rfl
  | some parent =>
      cases kind with
      | status state => exact absurd rfl (hkind state)
      | _ => rfl

lemma publishStatus_writes (r : Outcome) (state : Status) :
    Writes p (Output.publishStatus r p state) (· = [state.mark]) (· = []) := by
  refine .seq (.ofExcept (G := (· = [])) (B := (· = [])) r rfl rfl) ?_ fun _ h => h
  rintro _ rfl
  exact .record rfl rfl

lemma status_writes (r : Outcome) (state : Status) :
    Writes p (Output.status r p state) (· = [state.mark]) (· = []) := by
  refine .seq (.update (G := (· = [])) (B := fun _ => False) (fun _ => rfl) rfl) ?_
    fun _ h => h.elim
  rintro _ rfl
  exact publishStatus_writes r state

lemma routeReply_writes (r : Reply) (kind : MsgType) (metadata content : Json) :
    Writes p (Output.routeReply r p kind metadata content) (· = [.reply kind]) (· = []) := by
  cases r with
  | sent => exact .record rfl rfl
  | unframed e => exact .fail e rfl
  | refused e =>
      refine .seq (.update (G := (· = [])) (B := fun _ => False) (fun _ => rfl) rfl) ?_
        fun _ h => h.elim
      rintro _ rfl
      exact .fail e rfl

lemma reply_writes (r : Reply) (kind : MsgType) (metadata content : Json) :
    Writes p (Output.reply r p kind metadata content)
      (fun ms => ∃ a : Mark, a.Answers kind ∧ ms = [a]) (· = []) := by
  refine .get fun out => ?_
  split_ifs
  · exact .record rfl ⟨_, .inr rfl, rfl⟩
  · exact (routeReply_writes r kind metadata content).mono (fun _ h => ⟨_, .inl rfl, h⟩) fun _ h => h

lemma refusal_writes (silent : Bool) (name text : String) (count : Nat) :
    Writes p (Output.refusal o p silent name text count) (Served .executeReply)
      (Bracket .executeReply) := by
  refine .seq (publishStatus_writes o.busy .busy) ?_ ?_
  · rintro _ rfl
    refine .seq (G := (· = [])) (B := (· = [])) (.onlyIf (fun _ => ?_) fun _ => rfl) ?_ ?_
    · exact publishLocked_plain (fun state h => by cases h) _ _ _ _
    · rintro _ rfl
      refine .seq (reply_writes o.reply .executeReply _ _) ?_ ?_
      · rintro _ ⟨a, ha, rfl⟩
        refine (publishStatus_writes o.idle .idle).mono ?_ ?_
        · rintro _ rfl
          exact .mk ha
        · rintro _ rfl
          exact .answered ha
      · rintro _ rfl
        exact .busy
    · rintro _ rfl
      exact .busy
  · rintro _ rfl
    exact .none

lemma shellInfo_writes (content : Json) :
    Writes p (Output.shellInfo o p content) Informed Informing := by
  refine .seq (publishStatus_writes o.busy .busy) ?_ ?_
  · rintro _ rfl
    refine .seq (reply_writes o.reply .kernelInfoReply _ _) ?_ ?_
    · rintro _ ⟨a, ha, rfl⟩
      refine (publishStatus_writes o.idle .idle).mono ?_ ?_
      · rintro _ rfl
        exact .bracketed (.mk ha)
      · rintro _ rfl
        exact .bracket (.answered ha)
    · rintro _ rfl
      exact .bracket (.busy : Bracket .kernelInfoReply _)
  · rintro _ rfl
    exact .bracket (.none : Bracket .kernelInfoReply _)

lemma controlInfo_writes (content : Json) :
    Writes p (Output.controlInfo o p content) Informed Informing := by
  refine .get fun out => ?_
  cases hidle : out.idle with
  | true => exact shellInfo_writes content
  | false =>
      refine .seq (G := (· = [])) (B := (· = [])) (.skip rfl) ?_ ?_
      · rintro _ rfl
        refine .seq (reply_writes o.reply .kernelInfoReply _ _) ?_ ?_
        · rintro _ ⟨a, ha, rfl⟩
          exact .skip (.plain ha)
        · rintro _ rfl
          exact .bracket (.none : Bracket .kernelInfoReply _)
      · rintro _ rfl
        exact .bracket (.none : Bracket .kernelInfoReply _)

lemma interruptReply_writes : Writes p (interruptReply o p) Informed Informing := by
  refine .seq (.ofExcept (G := (· = [])) (B := (· = [])) o.shown rfl rfl) ?_ ?_
  · rintro _ rfl
    refine (reply_writes o.reply .interruptReply _ _).mono ?_ ?_
    · rintro _ ⟨a, ha, rfl⟩
      exact .plain ha
    · rintro _ rfl
      exact .bracket (.none : Bracket .interruptReply _)
  · rintro _ rfl
    exact .bracket (.none : Bracket .interruptReply _)

lemma shutdownReply_writes (restart : Bool) :
    Writes p (shutdownReply o p restart) Informed Informing := by
  refine .get fun out => ?_
  split_ifs
  · exact .fail _ (.bracket (.none : Bracket .shutdownReply _))
  · refine (routeReply_writes o.reply .shutdownReply _ _).mono ?_ ?_
    · rintro _ rfl
      exact .plain (show Mark.Answers .shutdownReply _ from .inl rfl)
    · rintro _ rfl
      exact .bracket (.none : Bracket .shutdownReply _)

lemma stream_writes (r : Outcome) (parent : Option Parent) (event : StreamEvent) :
    Writes p (stream r parent event) (· = []) (· = []) :=
  publishLocked_plain (fun state h => by cases h) _ _ _ _

lemma display_writes (S : Settling) (r : Outcome) (metadata result : Json) :
    Writes p (S.display r metadata result) (· = []) (· = []) := by
  unfold Settling.display
  split_ifs
  · exact .skip rfl
  · exact publishLocked_plain (fun state h => by cases h) _ _ _ _
  · split
    · exact publishLocked_plain (fun state h => by cases h) _ _ _ _
    · exact .skip rfl

/-! ## The courses -/

/-- An `execute_request` that was executed, so far. -/
def executing : List Mark := [.arrived true, .admitted, .executed]

/-- An `execute_request` that was taken from the queue to be refused, so far. -/
def aborting : List Mark := [.arrived true, .admitted, .aborted]

/-- How far the execution of a request has come. -/
inductive Begun : List Mark → Prop
  | popped : Begun []
  | started (store : Bool) {b : List Mark} (bracket : Bracket .executeReply b) :
      Begun (.started store :: b)

/-- The answer to a request whose execution failed: a reply, or none because the connection is closed
or the reply was not sent. -/
def Mark.Last (m : Mark) : Prop := m.Answers .executeReply ∨ m = .unsent

/-- The courses. -/
inductive Course : List Mark → Prop
  | refused {b : List Mark} (served : Served .executeReply b) : Course (.arrived true :: b)
  | refusalFailed {b : List Mark} (bracket : Bracket .executeReply b) :
      Course (.arrived true :: (b ++ [.failed]))
  | aborted {b : List Mark} (served : Served .executeReply b) : Course (aborting ++ b)
  | abortFailed {b : List Mark} (bracket : Bracket .executeReply b) :
      Course (aborting ++ (b ++ [.failed]))
  | left : Course (aborting ++ [.left])
  | served (store : Bool) {b : List Mark} (served : Served .executeReply b) :
      Course (executing ++ .started store :: b)
  | abandoned {b : List Mark} (begun : Begun b) : Course (executing ++ (b ++ [.abandoned]))
  | died {b : List Mark} {a : Mark} (begun : Begun b) (last : a.Last) :
      Course (executing ++ (b ++ [.failed, a]))
  | ignored : Course [.arrived false]
  | informed {b : List Mark} (informed : Informed b) : Course (.arrived false :: b)
  | informFailed {b : List Mark} (informing : Informing b) :
      Course (.arrived false :: (b ++ [.failed]))

/-- The places in a course. -/
inductive Due
  | refusal
  | info
  | pending
  | aborted
  | popped
  | started
  | busy
  | answered
  | idle
  | failed
deriving DecidableEq, Repr

/-- What has been written about a request that is at a place. -/
def Due.course : Due → List Mark → Prop
  | .refusal, l => l = [.arrived true]
  | .info, l => l = [.arrived false]
  | .pending, l => l = [.arrived true, .admitted]
  | .aborted, l => l = aborting
  | .popped, l => l = executing
  | .started, l => ∃ store, l = executing ++ [.started store]
  | .busy, l => ∃ store, l = executing ++ [.started store, .busy]
  | .answered, l => ∃ store a, a.Answers .executeReply ∧ l = executing ++ [.started store, .busy, a]
  | .idle, l => ∃ store b, Served .executeReply b ∧ l = executing ++ .started store :: b
  | .failed, l => ∃ b, Begun b ∧ l = executing ++ (b ++ [.failed])

/-- The places of a request under execution. -/
inductive Due.Executing : Due → Prop
  | popped : Executing .popped
  | started : Executing .started
  | busy : Executing .busy
  | answered : Executing .answered
  | idle : Executing .idle

lemma Due.Executing.begun {d : Due} (hd : d.Executing) (h : d.course l) :
    ∃ b, Begun b ∧ l = executing ++ b := by
  cases hd with
  | popped => exact ⟨[], .popped, by rw [List.append_nil]; exact h⟩
  | started =>
      obtain ⟨store, rfl⟩ := h
      exact ⟨_, .started store .none, rfl⟩
  | busy =>
      obtain ⟨store, rfl⟩ := h
      exact ⟨_, .started store .busy, rfl⟩
  | answered =>
      obtain ⟨store, a, ha, rfl⟩ := h
      exact ⟨_, .started store (.answered ha), rfl⟩
  | idle =>
      obtain ⟨store, b, hb, rfl⟩ := h
      exact ⟨_, .started store hb.bracket, rfl⟩

end Jupyter.Kernel

end Rnx
