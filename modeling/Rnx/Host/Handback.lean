import Rnx.Host.Segments

/-!
# A slot is handed back only clean

What every run of the machine of `Host.Slots` promises.  The invariant ties what the owner has to
the state of the context: a generation is running exactly in a polled run future, a context in use
is retired only by a failure, and the cleanup failure an invocation remembers is the failure of the
context.  The history of the calls says which generations an invocation has begun and finished.
-/

namespace Rnx

namespace Host.Slots

open Lifecycle (System State Dropped maxIdentity Kept)

/-! ## What the history says -/

/-- The calls of a run. -/
def callsOf (l : List (Event × Output)) : List Call := l.flatMap (·.2.calls)

/-- One step of the record of the calls made for an invocation. -/
def record (calls : List Call) (p : Event × Output) : List Call :=
  if p.2.report = .prepared then [] else calls ++ p.2.calls

/-- The calls made since the last invocation was prepared. -/
def callsSince (l : List (Event × Output)) : List Call := l.foldl record []

variable {s t u : Held} {l l' : List (Event × Output)} {e : Event} {out : Output}
  {v : SlotInvocation} {c c' : System} {calls : List Call} {m : List Mark}
  {drops : Nat → Dropped} {error : String}

@[simp] lemma callsSince_concat (p : Event × Output) :
    callsSince (l ++ [p]) = record (callsSince l) p := by
  simp [callsSince]

/-! ## The invariant -/

/-- A generation is running. -/
def Holding.running : Holding → Bool
  | .future _ polled => polled
  | _ => false

/-- The invocation the owner has. -/
def Holding.invocation? : Holding → Option SlotInvocation
  | .invocation v | .future v _ => some v
  | _ => none

/-- A generation may still begin. -/
def Holding.fresh : Holding → Bool
  | .slot => true
  | .invocation v | .future v _ => v.stage = .ready
  | .nothing => false

/-- The generations begun and finished for an invocation, given what the owner has now. -/
def Holding.Spans : Holding → List Mark → Prop
  | .future v true, m => v.stage = .begun ∧ m = [.begun]
  | .future v false, m | .invocation v, m =>
      v.stage = .ready ∧ m = [] ∨ v.stage = .done ∧ (m = [] ∨ m = [.begun, .finished])
  | _, m => m = [] ∨ m = [.begun, .finished]

/-- What ties the owner to the context. -/
structure Inv (s : Held) : Prop where
  context : Lifecycle.Inv s.context
  running : s.context.state.active = true → s.holding.running = true ∨ s.holding = .nothing
  retired : s.context.state.retired = true →
    s.holding = .nothing ∨ ∃ error, s.context.state.failure = some error
  gone : s.holding = .nothing → s.context.state.retired = true
  fresh : s.holding.fresh = true → s.context.state.generation < maxIdentity
  noted : ∀ v, s.holding.invocation? = some v → v.Noted s.context.state
  arguments : ∀ v, s.holding.invocation? = some v → v.stage = .ready → v.arguments.isSome = true

lemma new_inv : Inv .new where
  context := Lifecycle.new_inv
  running h := by cases h
  retired h := by cases h
  gone h := by cases h
  fresh _ := by decide
  noted v h := by cases h
  arguments v h := by cases h

/-- Steps of tracked values keep it. -/
lemma Inv.kept (h : Inv s) (hs : Segment s.context calls c m) (hk : Kept s.context c) :
    Inv ⟨c, s.holding⟩ where
  context := hs.inv h.context
  running hactive := h.running (hk.active ▸ hactive)
  retired hret := by
    obtain hgone | ⟨error, herror⟩ := h.retired (hk.retired ▸ hret)
    · exact .inl hgone
    · exact .inr ⟨error, Lifecycle.run_failure hs.run herror⟩
  gone hgone := hk.retired.trans (h.gone hgone)
  fresh hfresh := hk.generation ▸ h.fresh hfresh
  noted v hv := (h.noted v hv).segment hs
  arguments := h.arguments

/-- A reusable slot. -/
lemma Inv.slot (hi : Lifecycle.Inv c) (hre : reusable c.state = true) : Inv ⟨c, .slot⟩ where
  context := hi
  running hactive := by
    rw [(reusable_iff.1 hre).1] at hactive
    cases hactive
  retired hret := by
    rw [(reusable_iff.1 hre).2.1] at hret
    cases hret
  gone h := by cases h
  fresh _ := (reusable_iff.1 hre).2.2.1
  noted v h := by cases h
  arguments v h := by cases h

/-- A retired slot. -/
lemma Inv.nothing (hi : Lifecycle.Inv c) (hret : c.state.retired = true) : Inv ⟨c, .nothing⟩ where
  context := hi
  running _ := .inr rfl
  retired _ := .inl rfl
  gone _ := hret
  fresh h := by cases h
  noted v h := by cases h
  arguments v h := by cases h

/-- An invocation that has run. -/
lemma Inv.done (hi : Lifecycle.Inv c) (hactive : c.state.active = false)
    (hret : c.state.retired = true → ∃ error, c.state.failure = some error)
    (hstage : v.stage = .done) (hnoted : v.Noted c.state) : Inv ⟨c, .invocation v⟩ where
  context := hi
  running h := by
    rw [hactive] at h
    cases h
  retired h := .inr (hret h)
  gone h := by cases h
  fresh h := by
    obtain h : v.stage = .ready := by simpa [Holding.fresh] using h
    rw [hstage] at h
    cases h
  noted v' h := by
    obtain rfl : v = v' := Option.some.inj h
    exact hnoted
  arguments v' h hready := by
    obtain rfl : v = v' := Option.some.inj h
    rw [hstage] at hready
    cases hready

/-- A context in use is retired only by a failure. -/
lemma Inv.retired_failed (h : Inv s) (hne : s.holding ≠ .nothing)
    (hret : s.context.state.retired = true) : ∃ error, s.context.state.failure = some error :=
  (h.retired hret).resolve_left hne

/-- The end of a generation keeps it. -/
lemma Inv.finished {w : Traced} (h : Inv s) (hne : s.holding ≠ .nothing)
    (hext : Traced.Extends ⟨s.context, []⟩ w m) (hf : Finished s.context w.context)
    (hstage : v.stage = .done) (hnoted : v.Noted w.context.state) :
    Inv ⟨w.context, .invocation v⟩ := by
  refine .done (hext.inv h.context) hf.active ?_ hstage hnoted
  intro hret
  obtain hret | herror := hf.retired hret
  · obtain ⟨error, herror⟩ := h.retired_failed hne hret
    exact ⟨error, hext.failure herror⟩
  · exact herror

/-! ## Every step keeps it -/

/-- What a run has done. -/
structure Past (l : List (Event × Output)) (s : Held) : Prop where
  inv : Inv s
  spans : s.holding.Spans (marks (callsSince l))

/-- What one more step does: its calls lead from one context to the next. -/
structure Advance (l : List (Event × Output)) (s : Held) (e : Event) (out : Output) (t : Held) :
    Prop where
  segment : ∃ m, Segment s.context out.calls t.context m
  past : Past (l ++ [(e, out)]) t

lemma new_past : Past [] .new where
  inv := new_inv
  spans := .inl rfl

/-- A step that prepares nothing. -/
lemma advance_step (hi : Inv t) (hs : Segment s.context out.calls t.context m)
    (hreport : out.report ≠ .prepared) (hspans : t.holding.Spans (marks (callsSince l) ++ m)) :
    Advance l s e out t := by
  refine ⟨⟨m, hs⟩, hi, ?_⟩
  rw [callsSince_concat, record, if_neg hreport, marks_append, hs.marks]
  exact hspans

/-- The spans of an invocation that is at rest. -/
lemma Past.rested (h : Past l s) (hrest : s.holding.running = false) :
    marks (callsSince l) = [] ∨ marks (callsSince l) = [.begun, .finished] := by
  have hspans := h.spans
  cases hh : s.holding with
  | slot =>
      rw [hh] at hspans
      exact hspans
  | nothing =>
      rw [hh] at hspans
      exact hspans
  | invocation v =>
      rw [hh] at hspans
      obtain ⟨-, hm⟩ | ⟨-, hm⟩ := hspans
      · exact .inl hm
      · exact hm
  | future v polled =>
      rw [hh] at hspans hrest
      obtain rfl : polled = false := hrest
      obtain ⟨-, hm⟩ | ⟨-, hm⟩ := hspans
      · exact .inl hm
      · exact hm

/-- The slot is handed back, or is gone. -/
lemma Past.ends {w : Traced} (slot : Bool) (h : Past l s) (hrest : s.holding.running = false)
    (hext : Traced.Extends ⟨s.context, []⟩ w []) (hreport : out.report ≠ .prepared)
    (hcalls : out.calls = w.calls)
    (hend : slot = true ∧ reusable w.context.state = true ∨
      slot = false ∧ w.context.state.retired = true) :
    Advance l s e out ⟨w.context, if slot = true then .slot else .nothing⟩ := by
  have hi := hext.inv h.inv.context
  have hsegment : Segment s.context out.calls w.context [] := hcalls ▸ hext.segment
  have hrested := h.rested hrest
  rw [← List.append_nil (marks (callsSince l))] at hrested
  obtain ⟨rfl, hre⟩ | ⟨rfl, hret⟩ := hend
  · exact advance_step (.slot hi hre) hsegment hreport hrested
  · exact advance_step (.nothing hi hret) hsegment hreport hrested

lemma next_context (s : Held) (o : Lifecycle.Event) : next s (.context o) =
    if ambient o = true then
      (Lifecycle.next s.context o).map fun r => (⟨r.1, s.holding⟩, ⟨[(o, r.2)], .context r.2⟩)
    else none := by
  obtain ⟨c, holding⟩ := s
  cases holding <;> rfl

lemma Past.context {o : Lifecycle.Event} (h : Past l s)
    (hstep : next s (.context o) = some (t, out)) : Advance l s (.context o) out t := by
  rw [next_context] at hstep
  split_ifs at hstep with hambient
  obtain ⟨⟨c, answer⟩, hlife, hrun⟩ := Option.map_eq_some_iff.1 hstep
  obtain ⟨rfl, rfl⟩ := Prod.ext_iff.1 hrun
  have hkept : Kept s.context c := by
    cases o with
    | track name here dropped => exact Lifecycle.track_kept hlife
    | poll i native dropped => exact Lifecycle.poll_kept hlife
    | drop i dropped => exact Lifecycle.drop_kept hlife
    | _ => cases hambient
  have hmark : mark (o, answer) = none := by
    cases o with
    | track name here dropped => rfl
    | poll i native dropped => rfl
    | drop i dropped => rfl
    | _ => cases hambient
  have hreported : ∀ error, answer = .done (.error error) → c.state.failure = some error := by
    intro error herror
    subst herror
    cases o with
    | track name here dropped => cases (Prod.ext_iff.1 (Option.some.inj hlife)).2
    | poll i native dropped =>
        obtain ⟨y, -, hrun⟩ := Option.map_eq_some_iff.1 hlife
        cases (Prod.ext_iff.1 hrun).2
    | drop i dropped =>
        obtain ⟨y, -, hrun⟩ := Option.map_eq_some_iff.1 hlife
        cases (Prod.ext_iff.1 hrun).2
    | _ => cases hambient
  have hs : Segment s.context [(o, answer)] c [] := by
    refine ⟨.cons hlife (.nil _), by simp [marks, hmark], ?_⟩
    intro p hp error herror
    obtain rfl := List.mem_singleton.1 hp
    exact hreported error herror
  refine advance_step (h.inv.kept hs hkept) hs (fun hr => by cases hr) ?_
  rw [List.append_nil]
  exact h.spans

lemma Past.prepare {handler : String} {arguments : List Value} {budget : Nat} (h : Past l s)
    (hstep : next s (.prepare handler arguments budget drops) = some (t, out)) :
    Advance l s (.prepare handler arguments budget drops) out t := by
  obtain ⟨c, holding⟩ := s
  cases holding with
  | slot =>
      obtain hok | ⟨hext, ⟨failure, herror, hre⟩ | ⟨failure, herror, hretires⟩⟩ :=
        prepare_cases (w := ⟨c, []⟩) handler arguments budget drops h.inv.context
      · simp only [next, hok] at hstep
        obtain ⟨rfl, rfl⟩ := Prod.ext_iff.1 (Option.some.inj hstep)
        refine ⟨⟨[], .nil _⟩, ?_, ?_⟩
        · refine ⟨h.inv.context, ?_, ?_, (fun hg => by cases hg), fun _ => h.inv.fresh rfl, ?_, ?_⟩
          · intro hactive
            obtain hrun | hrun := h.inv.running hactive <;> cases hrun
          · intro hret
            exact .inr (h.inv.retired_failed (fun hg => by cases hg) hret)
          · intro v hv failure hf
            obtain rfl := Option.some.inj hv
            cases hf
          · intro v hv _
            obtain rfl := Option.some.inj hv
            rfl
        · rw [callsSince_concat, record, if_pos rfl]
          exact .inl ⟨rfl, rfl⟩
      · simp only [next, herror] at hstep
        obtain ⟨rfl, rfl⟩ := Prod.ext_iff.1 (Option.some.inj hstep)
        exact h.ends true rfl hext (fun hr => by cases hr) rfl (.inl ⟨rfl, hre⟩)
      · simp only [next, herror] at hstep
        obtain ⟨rfl, rfl⟩ := Prod.ext_iff.1 (Option.some.inj hstep)
        exact h.ends false rfl hext (fun hr => by cases hr) rfl (.inr ⟨rfl, hretires.retired⟩)
  | _ => cases hstep

/-- Taking or dropping an unpolled run future changes nothing but who has the invocation. -/
lemma Past.borrowed {holding : Holding} (h : Past l s) (hrest : s.holding.running = false)
    (hne : s.holding ≠ .nothing) (hgone : holding ≠ .nothing)
    (hinv : holding.invocation? = s.holding.invocation?) (hfresh : holding.fresh = s.holding.fresh)
    (hspans : ∀ m, s.holding.Spans m → holding.Spans m) (hcalls : out.calls = [])
    (hreport : out.report ≠ .prepared) : Advance l s e out ⟨s.context, holding⟩ := by
  have hi : Inv ⟨s.context, holding⟩ := by
    refine ⟨h.inv.context, ?_, ?_, fun hg => absurd hg hgone, ?_, ?_, ?_⟩
    · intro hactive
      obtain hactive | hnothing := h.inv.running hactive
      · rw [hrest] at hactive
        cases hactive
      · exact absurd hnothing hne
    · intro hret
      exact .inr (h.inv.retired_failed hne hret)
    · intro hf
      exact h.inv.fresh (hfresh ▸ hf)
    · intro v hv
      exact h.inv.noted v (hinv ▸ hv)
    · intro v hv
      exact h.inv.arguments v (hinv ▸ hv)
  refine advance_step hi (m := []) (hcalls ▸ .nil _) hreport ?_
  rw [List.append_nil]
  exact hspans _ h.spans

lemma Past.run (h : Past l s) (hstep : next s .run = some (t, out)) :
    Advance l s .run out t := by
  obtain ⟨c, holding⟩ := s
  cases holding with
  | invocation v =>
      obtain ⟨rfl, rfl⟩ := Prod.ext_iff.1 (Option.some.inj hstep)
      exact h.borrowed rfl (fun hg => by cases hg) (fun hg => by cases hg) rfl rfl
        (fun m hm => hm) rfl fun hr => by cases hr
  | _ => cases hstep

/-- The first poll of a run future. -/
lemma Past.poll (h : Past l s) (hstep : next s .poll = some (t, out)) :
    Advance l s .poll out t := by
  obtain ⟨c, holding⟩ := s
  cases holding with
  | future v polled =>
      cases polled with
      | true => cases hstep
      | false =>
          have hret := h.inv.retired_failed fun hg => by cases hg
          have hgen : v.stage = .ready → c.state.generation < maxIdentity := by
            intro hready
            exact h.inv.fresh (by simp [Holding.fresh, hready])
          have hspans := h.spans
          obtain ⟨-, hrun⟩ | ⟨hready, error, hf, hrun, hext⟩ | ⟨hready, hrun, hext⟩ :=
            runUntilHandler_cases (w := ⟨c, []⟩) hret hgen
          · simp only [next, hrun] at hstep
            obtain ⟨rfl, rfl⟩ := Prod.ext_iff.1 (Option.some.inj hstep)
            exact h.borrowed rfl (fun hg => by cases hg) (fun hg => by cases hg) rfl rfl
              (fun m hm => hm) rfl fun hr => by cases hr
          · have hm : marks (callsSince l) = [] := by
              obtain ⟨-, hm⟩ | ⟨hdone, -⟩ := hspans
              · exact hm
              · rw [hready] at hdone
                cases hdone
            have hactive : c.state.active = false := by
              by_contra hne
              obtain hr | hr := h.inv.running (by simpa using hne) <;> cases hr
            simp only [next, hrun] at hstep
            rw [hrun] at hext
            obtain ⟨rfl, rfl⟩ := Prod.ext_iff.1 (Option.some.inj hstep)
            refine advance_step (.done h.inv.context hactive hret rfl ?_) hext.segment
              (fun hr => by cases hr) (.inr ⟨rfl, .inl ?_⟩)
            · intro failure hfailure
              obtain rfl := Option.some.inj hfailure
              exact ⟨rfl, hf⟩
            · rw [hm]
              rfl
          · have hm : marks (callsSince l) = [] := by
              obtain ⟨-, hm⟩ | ⟨hdone, -⟩ := hspans
              · exact hm
              · rw [hready] at hdone
                cases hdone
            simp only [next, hrun] at hstep
            rw [hrun] at hext
            obtain ⟨rfl, rfl⟩ := Prod.ext_iff.1 (Option.some.inj hstep)
            refine advance_step ?_ hext.segment (fun hr => by cases hr) ⟨rfl, by rw [hm]; rfl⟩
            refine ⟨hext.inv h.inv.context, fun _ => .inl rfl, ?_, (fun hg => by cases hg),
              (fun hf => by cases hf), ?_, ?_⟩
            · intro hretired
              exact .inr (hret hretired)
            · intro v' hv failure hfailure
              obtain rfl := Option.some.inj hv
              exact h.inv.noted v rfl failure hfailure
            · intro v' hv hstage
              obtain rfl := Option.some.inj hv
              cases hstage
  | _ => cases hstep

/-- A polled run future is a generation that has begun and not finished. -/
lemma Past.polled (h : Past l ⟨c, .future v true⟩) : marks (callsSince l) = [.begun] := h.spans.2

lemma Past.complete {result : Except Failure Value} (h : Past l s)
    (hstep : next s (.complete result drops) = some (t, out)) :
    Advance l s (.complete result drops) out t := by
  obtain ⟨c, holding⟩ := s
  cases holding with
  | future v polled =>
      cases polled with
      | false => cases hstep
      | true =>
          obtain ⟨hext, hfinished, hstage, hnoted, -⟩ :=
            finishRun_spec (w := ⟨c, []⟩) result drops v (h.inv.noted v rfl)
          obtain ⟨rfl, rfl⟩ := Prod.ext_iff.1 (Option.some.inj hstep)
          refine advance_step (h.inv.finished (fun hg => by cases hg) hext hfinished hstage hnoted)
            hext.segment (fun hr => by cases hr) (.inr ⟨hstage, .inr ?_⟩)
          rw [h.polled]
          rfl
  | _ => cases hstep

lemma Past.dropFuture (h : Past l s) (hstep : next s (.dropFuture drops) = some (t, out)) :
    Advance l s (.dropFuture drops) out t := by
  obtain ⟨c, holding⟩ := s
  cases holding with
  | future v polled =>
      cases polled with
      | false =>
          obtain ⟨rfl, rfl⟩ := Prod.ext_iff.1 (Option.some.inj hstep)
          exact h.borrowed rfl (fun hg => by cases hg) (fun hg => by cases hg) rfl rfl
            (fun m hm => hm) rfl fun hr => by cases hr
      | true =>
          obtain ⟨hext, hfinished, hstage, hnoted⟩ :=
            cancelRun_spec (w := ⟨c, []⟩) drops v (h.inv.noted v rfl)
          obtain ⟨rfl, rfl⟩ := Prod.ext_iff.1 (Option.some.inj hstep)
          refine advance_step (h.inv.finished (fun hg => by cases hg) hext hfinished hstage hnoted)
            hext.segment (fun hr => by cases hr) (.inr ⟨hstage, .inr ?_⟩)
          rw [h.polled]
          rfl
  | _ => cases hstep

/-- What `close` leaves its caller. -/
lemma handedBack_eq (result : Except (Failure × Bool) Unit) : handedBack result =
    if (match result with | .ok _ => true | .error p => p.2) = true then .slot else .nothing := by
  cases result <;> rfl

lemma Past.close (h : Past l s) (hstep : next s (.close drops) = some (t, out)) :
    Advance l s (.close drops) out t := by
  obtain ⟨c, holding⟩ := s
  cases holding with
  | invocation v =>
      obtain ⟨hext, hend⟩ :=
        closeInvocation_spec (w := ⟨c, []⟩) drops h.inv.context (h.inv.noted v rfl)
      obtain ⟨rfl, rfl⟩ := Prod.ext_iff.1 (Option.some.inj hstep)
      rw [handedBack_eq]
      refine h.ends _ rfl hext (fun hr => by cases hr) rfl ?_
      obtain ⟨hanswer, hre, -⟩ | ⟨failure, hanswer, hretires, -⟩ := hend
      · rw [hanswer]
        refine .inl ⟨?_, hre⟩
        cases v.failure <;> rfl
      · rw [hanswer]
        exact .inr ⟨rfl, hretires.retired⟩
  | _ => cases hstep

lemma Past.abandon (h : Past l s) (hstep : next s (.abandon drops) = some (t, out)) :
    Advance l s (.abandon drops) out t := by
  obtain ⟨c, holding⟩ := s
  cases holding with
  | slot =>
      obtain ⟨hext, hret⟩ := dropSlot_spec drops ⟨c, []⟩
      obtain ⟨rfl, rfl⟩ := Prod.ext_iff.1 (Option.some.inj hstep)
      exact h.ends false rfl hext (fun hr => by cases hr) rfl (.inr ⟨rfl, hret⟩)
  | invocation v =>
      obtain ⟨hext, hret⟩ := dropInvocation_spec drops v ⟨c, []⟩
      obtain ⟨rfl, rfl⟩ := Prod.ext_iff.1 (Option.some.inj hstep)
      exact h.ends false rfl hext (fun hr => by cases hr) rfl (.inr ⟨rfl, hret⟩)
  | _ => cases hstep

/-- Every step extends the history. -/
lemma next_advance (h : Past l s) (hstep : next s e = some (t, out)) : Advance l s e out t := by
  cases e with
  | context o => exact h.context hstep
  | prepare handler arguments budget drops => exact h.prepare hstep
  | run => exact h.run hstep
  | poll => exact h.poll hstep
  | complete result drops => exact h.complete hstep
  | dropFuture drops => exact h.dropFuture hstep
  | close drops => exact h.close hstep
  | abandon drops => exact h.abandon hstep

/-- The calls of a run are a run of the context. -/
lemma run_segment (hrun : machine.Run s l t) (past : List (Event × Output)) (h : Past past s) :
    (∃ m, Segment s.context (callsOf l) t.context m) ∧ Past (past ++ l) t := by
  induction hrun generalizing past with
  | nil s =>
      rw [List.append_nil]
      exact ⟨⟨[], .nil _⟩, h⟩
  | cons step _ ih =>
      obtain ⟨⟨m, hs⟩, h'⟩ := next_advance h step
      obtain ⟨⟨m', hs'⟩, h''⟩ := ih _ h'
      rw [List.append_assoc] at h''
      exact ⟨⟨m ++ m', hs.append hs'⟩, h''⟩

/-! ## What a run promises -/

lemma retired_next (h : s.holding = .nothing) (hstep : next s e = some (t, out)) :
    t.holding = .nothing := by
  obtain ⟨c, holding⟩ := s
  obtain rfl : holding = .nothing := h
  cases e with
  | context o =>
      rw [next_context] at hstep
      split_ifs at hstep
      obtain ⟨r, -, hrun⟩ := Option.map_eq_some_iff.1 hstep
      obtain ⟨rfl, -⟩ := Prod.ext_iff.1 hrun
      rfl
  | _ => cases hstep

lemma run_gone (hrun : machine.Run s l t) (h : s.holding = .nothing) : t.holding = .nothing :=
  Machine.Run.invariant (P := fun s => s.holding = .nothing)
    (fun _ _ _ _ h hstep => retired_next h hstep) hrun h

/-- A context that owns no future polls none. -/
lemma poll_idle (hidle : s.context.Idle) {i : Nat} {native : Lifecycle.Poll} {dropped : Dropped}
    (hstep : next s (.context (.poll i native dropped)) = some (t, out)) :
    ∃ answer, out.report = .context (.polled false answer) := by
  rw [next_context] at hstep
  obtain ⟨r, hlife, hrun⟩ := Option.map_eq_some_iff.1 hstep
  obtain ⟨y, hat, rfl⟩ := Option.map_eq_some_iff.1 hlife
  obtain ⟨-, rfl⟩ := Prod.ext_iff.1 hrun
  cases y with
  | error message => exact ⟨_, rfl⟩
  | owner o =>
      refine ⟨.ready (.error Lifecycle.cancelled), ?_⟩
      simp only [Lifecycle.poll_spent (hidle i o hat)]

/-- What holds after the run `l` has led to `s`: its calls are a run of the context, an invocation
begins at most one generation, and its generation is finished once by the time it is closed. -/
structure Generations (l : List (Event × Output)) (s : Held) : Prop where
  refines : Lifecycle.machine.Run .new (callsOf l) s.context
  spans : marks (callsSince l) = [] ∨ marks (callsSince l) = [.begun] ∨
    marks (callsSince l) = [.begun, .finished]
  closed : ∀ drops t out, next s (.close drops) = some (t, out) → marks out.calls = [] ∧
    (marks (callsSince l) = [] ∨ marks (callsSince l) = [.begun, .finished])
  arguments : ∀ v, s.holding = .future v false → v.stage = .ready → v.arguments.isSome = true

/-- `close` hands the slot back only when it is reusable and owns no future; it does so whenever a
generation is left and no cleanup has failed. -/
structure Closes (s : Held) (drops : Nat → Dropped) (t : Held) (out : Output) : Prop where
  back : t.holding = .slot → t.context.Idle ∧ t.context.state.active = false ∧
    t.context.state.retired = false ∧ t.context.state.failure = none ∧
    (Lifecycle.begin t.context.state).2 = .ok ()
  hands : t.context.state.failure = none → s.context.state.generation < maxIdentity →
    t.holding = .slot ∧
      ∃ v, s.holding = .invocation v ∧ out.report = .closed (handing v.failure)
  failed : ∀ error, t.context.state.failure = some error → t.holding = .nothing ∧
    t.context.state.retired = true ∧ out.report = .closed (.error (⟨"cleanup", error⟩, false))

/-- A failure that a call reported is the failure of the context, stays so, and is what a run and a
refused preparation report in place of their own. -/
structure Cleanup (l : List (Event × Output)) (s : Held) : Prop where
  seen : ∀ p ∈ callsOf l, ∀ error, p.2 = .done (.error error) →
    s.context.state.failure = some error
  stays : ∀ l' t, machine.Run s l' t → ∀ error, s.context.state.failure = some error →
    t.context.state.failure = some error
  completes : ∀ result drops t out, next s (.complete result drops) = some (t, out) →
    (∀ error, t.context.state.failure = some error →
      out.report = .returned (.error ⟨"cleanup", error⟩)) ∧
    (t.context.state.failure = none → out.report = .returned result)
  refused : ∀ handler arguments budget drops t out,
    next s (.prepare handler arguments budget drops) = some (t, out) →
    ∀ failure slot, out.report = .refused failure slot →
      (slot = true → reusable t.context.state = true) ∧
      ∀ error, t.context.state.failure = some error → failure = ⟨"cleanup", error⟩ ∧
        t.holding = .nothing ∧ t.context.state.retired = true

/-- A slot that is not handed back is retired for good, and its operations are revoked. -/
structure Gone (s : Held) : Prop where
  retired : s.context.state.retired = true
  idle : s.context.Idle
  stays : ∀ l t, machine.Run s l t → t.holding = .nothing
  polls : ∀ i native dropped t out, next s (.context (.poll i native dropped)) = some (t, out) →
    ∃ answer, out.report = .context (.polled false answer)

/-- What every run promises. -/
structure Clean (l : List (Event × Output)) (s : Held) : Prop where
  generations : Generations l s
  closes : ∀ drops t out, next s (.close drops) = some (t, out) → Closes s drops t out
  cleanup : Cleanup l s
  abandoned : ∀ drops t out, next s (.abandon drops) = some (t, out) → t.holding = .nothing
  gone : s.holding = .nothing → Gone s

lemma Past.generations (h : Past l s) (hs : Segment .new (callsOf l) s.context m) :
    Generations l s where
  refines := hs.run
  spans := by
    cases hrun : s.holding.running with
    | false =>
        obtain hm | hm := h.rested hrun
        · exact .inl hm
        · exact .inr (.inr hm)
    | true =>
        obtain ⟨c, holding⟩ := s
        cases holding with
        | future v polled =>
            obtain rfl : polled = true := hrun
            exact .inr (.inl h.polled)
        | _ => cases hrun
  closed drops t out hstep := by
    obtain ⟨c, holding⟩ := s
    cases holding with
    | invocation v =>
        obtain ⟨hext, -⟩ :=
          closeInvocation_spec (w := ⟨c, []⟩) drops h.inv.context (h.inv.noted v rfl)
        obtain ⟨-, rfl⟩ := Prod.ext_iff.1 (Option.some.inj hstep)
        exact ⟨hext.segment.marks, h.rested rfl⟩
    | _ => cases hstep
  arguments v hv hready := h.inv.arguments v (by rw [hv]; rfl) hready

lemma Past.closes (h : Past l s) (hstep : next s (.close drops) = some (t, out)) :
    Closes s drops t out := by
  obtain ⟨c, holding⟩ := s
  cases holding with
  | invocation v =>
      obtain ⟨hext, hend⟩ :=
        closeInvocation_spec (w := ⟨c, []⟩) drops h.inv.context (h.inv.noted v rfl)
      obtain ⟨rfl, rfl⟩ := Prod.ext_iff.1 (Option.some.inj hstep)
      obtain ⟨hanswer, hre, hidle⟩ | ⟨failure, hanswer, hretires, honly⟩ := hend
      · obtain ⟨hactive, hret, hgen, hnone⟩ := reusable_iff.1 hre
        have hslot : handedBack (handing v.failure) = .slot := by
          cases v.failure <;> rfl
        refine ⟨fun _ => ⟨hidle, hactive, hret, hnone, ?_⟩, ?_, ?_⟩
        · rw [begin_ok hnone hret hgen]
        · intro _ _
          simp only [hanswer]
          exact ⟨hslot, v, rfl, rfl⟩
        · intro error herror
          rw [hnone] at herror
          cases herror
      · simp only [hanswer]
        refine ⟨(fun hslot => by cases hslot), ?_, ?_⟩
        · intro hnone hgen
          have hbefore : ∀ error, c.state.failure ≠ some error := by
            intro error herror
            rw [hext.failure herror] at hnone
            cases hnone
          refine absurd (reusable_iff.2 ⟨?_, ?_, hgen, ?_⟩) (honly hnone)
          · by_contra hne
            obtain hr | hr := h.inv.running (by simpa using hne) <;> cases hr
          · by_contra hne
            obtain ⟨error, herror⟩ :=
              h.inv.retired_failed (fun hg => by cases hg) (by simpa using hne)
            exact hbefore error herror
          · exact Option.eq_none_iff_forall_ne_some.2 hbefore
        · intro error herror
          obtain ⟨hret, hcat, hmessage⟩ := hretires
          have hfailure : failure = ⟨"cleanup", error⟩ := by
            rw [← hmessage error herror, ← hcat]
          exact ⟨rfl, hret, by rw [hfailure]⟩
  | _ => cases hstep

lemma Past.refused (h : Past l s) {handler : String} {arguments : List Value} {budget : Nat}
    (hstep : next s (.prepare handler arguments budget drops) = some (t, out)) {failure : Failure}
    {slot : Bool} (hreport : out.report = .refused failure slot) :
    (slot = true → reusable t.context.state = true) ∧
      ∀ error, t.context.state.failure = some error → failure = ⟨"cleanup", error⟩ ∧
        t.holding = .nothing ∧ t.context.state.retired = true := by
  obtain ⟨c, holding⟩ := s
  cases holding with
  | slot =>
      obtain hok | ⟨-, ⟨failure', herror, hre⟩ | ⟨failure', herror, hretires⟩⟩ :=
        prepare_cases (w := ⟨c, []⟩) handler arguments budget drops h.inv.context
      · simp only [next, hok] at hstep
        obtain ⟨rfl, rfl⟩ := Prod.ext_iff.1 (Option.some.inj hstep)
        cases hreport
      · simp only [next, herror] at hstep
        obtain ⟨rfl, rfl⟩ := Prod.ext_iff.1 (Option.some.inj hstep)
        refine ⟨fun _ => hre, ?_⟩
        intro error hf
        rw [(reusable_iff.1 hre).2.2.2] at hf
        cases hf
      · simp only [next, herror] at hstep
        obtain ⟨rfl, rfl⟩ := Prod.ext_iff.1 (Option.some.inj hstep)
        obtain ⟨rfl, rfl⟩ := Report.refused.inj hreport
        refine ⟨(fun hslot => by cases hslot), ?_⟩
        intro error hf
        obtain ⟨hret, hcat, hmessage⟩ := hretires
        exact ⟨by rw [← hmessage error hf, ← hcat], rfl, hret⟩
  | _ => cases hstep

lemma Past.completes (h : Past l s) {result : Except Failure Value}
    (hstep : next s (.complete result drops) = some (t, out)) :
    (∀ error, t.context.state.failure = some error →
      out.report = .returned (.error ⟨"cleanup", error⟩)) ∧
      (t.context.state.failure = none → out.report = .returned result) := by
  obtain ⟨c, holding⟩ := s
  cases holding with
  | future v polled =>
      cases polled with
      | false => cases hstep
      | true =>
          obtain ⟨-, -, -, -, hfailed, hclean⟩ :=
            finishRun_spec (w := ⟨c, []⟩) result drops v (h.inv.noted v rfl)
          obtain ⟨rfl, rfl⟩ := Prod.ext_iff.1 (Option.some.inj hstep)
          refine ⟨?_, ?_⟩
          · intro error herror
            simp only [hfailed error herror]
          · intro hnone
            simp only [hclean hnone]
  | _ => cases hstep

lemma abandon_nothing (hstep : next s (.abandon drops) = some (t, out)) : t.holding = .nothing := by
  obtain ⟨c, holding⟩ := s
  cases holding with
  | slot =>
      obtain ⟨rfl, -⟩ := Prod.ext_iff.1 (Option.some.inj hstep)
      rfl
  | invocation v =>
      obtain ⟨rfl, -⟩ := Prod.ext_iff.1 (Option.some.inj hstep)
      rfl
  | _ => cases hstep

lemma Inv.isGone (h : Inv s) (hgone : s.holding = .nothing) : Gone s := by
  have hidle : s.context.Idle := h.context.retired (h.gone hgone)
  exact ⟨h.gone hgone, hidle, fun l t hrun => run_gone hrun hgone,
    fun i native dropped t out hstep => poll_idle hidle hstep⟩

/-- **A reusable slot is handed back only clean**, in every run of its owner, its run futures and
the values tracked in it. -/
theorem slots_handed_back_clean (hrun : machine.Run .new l s) : Clean l s := by
  obtain ⟨⟨m, hs⟩, h⟩ := run_segment hrun [] new_past
  refine ⟨h.generations hs, fun drops t out => h.closes, ?_, fun drops t out => abandon_nothing,
    h.inv.isGone⟩
  refine ⟨hs.reported, ?_, fun result drops t out => h.completes, ?_⟩
  · intro l' t hrun' error hf
    obtain ⟨⟨m', hs'⟩, -⟩ := run_segment hrun' _ h
    exact Lifecycle.run_failure hs'.run hf
  · intro handler arguments budget drops t out hstep failure slot hreport
    exact h.refused hstep hreport

/-- Destructors that return. -/
def quiet : Nat → Dropped := fun _ => none

/-- A request whose run is dropped in its handler, where it has polled an operation that its owner
keeps, and that is then closed. -/
def cancelledSteps : List (Event × Output) :=
  [(.prepare "hold" [] 1000 quiet, ⟨[], .prepared⟩), (.run, ⟨[], .future⟩),
    (.poll, ⟨[(.begin, .done (.ok ()))], .pending⟩),
    (.context (.track "held" true none),
      ⟨[(.track "held" true none, .tracked (.owner ⟨true, "held", 0, 1⟩))],
        .context (.tracked (.owner ⟨true, "held", 0, 1⟩))⟩),
    (.context (.poll 0 .pending none),
      ⟨[(.poll 0 .pending none, .polled true .pending)], .context (.polled true .pending)⟩),
    (.dropFuture quiet, ⟨[(.finish true quiet, .done (.ok ()))], .dropped⟩),
    (.close quiet, ⟨[(.clear quiet, .done (.ok ()))],
      .closed (.error (⟨"cancelled", "execution cancelled"⟩, true))⟩)]

/-- The slot it leaves: the operation has lost its future. -/
def cancelledSlot : Held :=
  ⟨⟨⟨1, false, 2, false, [], none⟩, [some (.owner ⟨false, "held", 1, 1⟩)]⟩, .slot⟩

/-- The promises for the request that was cancelled. -/
theorem slots_handed_back_clean_cancelled : Clean cancelledSteps cancelledSlot :=
  slots_handed_back_clean (.cons rfl (.cons rfl (.cons rfl (.cons rfl (.cons rfl (.cons rfl
    (.cons rfl (.nil _))))))))

end Host.Slots

end Rnx
