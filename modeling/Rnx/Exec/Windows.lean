import Rnx.Exec.Frames

/-!
# Windows as activations

The executor's stack against the activations of single functions: the innermost window is an
activation that its function reaches, and a suspended one becomes such an activation with whatever
its call returns (`Waits`).  What holds of every activation of a function therefore holds of the
innermost frame in every state an invocation reaches.
-/

namespace Rnx

namespace Exec

open Executor (Frame Moves Stepped Inv)

variable {S : Setting} {env : Callees} {e e' : Executor} {frame : Frame} {frames : List Frame}
  {f : Function} {op : Op}

/-- The activations of a function under a setting. -/
abbrev Setting.activations (S : Setting) (f : Function) : Machine Activation Reply Activation :=
  Exec.activations S.floats S.casts f

/-- The suspended frames, from the innermost on, over the slots below the frame they wait for, whose
result goes to the slot: it makes an activation of the first of them, whatever it is. -/
inductive Waits (S : Setting) : List Frame → List Value → Option Nat → Prop
  | nil {slots : List Value} : Waits S [] slots none
  | cons {frame : Frame} {frames : List Frame} {slots : List Value} {f : Function} {o : Nat}
      (hf : S.functions[frame.function]? = some f) (ho : frame.base ≤ o)
      (hreach : ∀ v, (S.activations f).Reachable ⟨frame.pc, (slots.set o v).drop frame.base⟩)
      (hrest : Waits S frames (slots.take frame.base) frame.out) :
      Waits S (frame :: frames) slots (some o)

/-- The innermost frame is an activation, and the others wait. -/
inductive Refines (S : Setting) : List Frame → List Value → Prop
  | cons {frame : Frame} {frames : List Frame} {slots : List Value} {f : Function}
      (hf : S.functions[frame.function]? = some f)
      (hreach : (S.activations f).Reachable ⟨frame.pc, slots.drop frame.base⟩)
      (hrest : Waits S frames (slots.take frame.base) frame.out) :
      Refines S (frame :: frames) slots

/-- An effect of the operation at its pc is a step of an activation. -/
lemma step_of_effect {a a' : Activation} {reply : Reply} {effect : Effect}
    (hcache : f.prepareCache = .ok f) (hop : f.operation a.pc = .ok op)
    (heffect : a.effect S.floats S.casts reply op = some effect)
    (happly : a.apply effect = some a') :
    (S.activations f).next a reply = some (a', a) := by
  have hstep : a.step S.floats S.casts f reply = some a' := by
    unfold Activation.step
    rw [Executor.cached_at hcache hop]
    show (a.effect S.floats S.casts reply op).bind a.apply = some a'
    rw [heffect]
    exact happly
  show (a.step S.floats S.casts f reply).map (fun b => (b, a)) = some (a', a)
  rw [hstep]
  rfl

/-- One instruction of the executor is one step of the innermost activation, begins one, or ends one
that another waits for. -/
lemma refines_stepped (hS : S.Sealed env) (hinv : Inv S e)
    (hstep : Stepped S env e e' frame frames f op) (h : Refines S e.frames e.slots) :
    Refines S e'.frames e'.slots := by
  obtain ⟨hframes, hf, hop, -, hmoves⟩ := hstep
  obtain ⟨-, hstack⟩ := hinv
  rw [hframes] at h hstack
  obtain ⟨hruns, -⟩ := hS.runs hf
  cases hstack with
  | cons hf' hpc hn hout hrest =>
    obtain rfl := Option.some.inj (hf.symm.trans hf')
    have hbase : frame.base ≤ e.slots.length := by omega
    have htake : (e.slots.take frame.base).length = frame.base := by
      rw [List.length_take]
      omega
    cases h with
    | cons hf' hreach hwaits =>
      obtain rfl := Option.some.inj (hf.symm.trans hf')
      cases hmoves with
      | inside heffect happly =>
        rename_i reply effect a
        refine .cons hf ?_ ?_
        · simp only
          rw [List.drop_left' htake]
          exact hreach.step (step_of_effect hruns.cache hop heffect happly)
        · simp only
          rw [List.take_left' htake]
          exact hwaits
      | calls hg hargs hlt hresume =>
        rename_i g callee out args
        obtain ⟨hcallee, -⟩ := hS.runs hg
        refine .cons hg ?_ ?_
        · simp only
          rw [List.drop_left' rfl]
          refine Machine.Reachable.of_start ⟨args, ?_⟩
          exact if_pos ⟨hargs, hargs ▸ hcallee.sized⟩
        · simp only
          rw [List.take_left' rfl]
          refine .cons hf (Nat.le_add_right _ _) (fun v => ?_) hwaits
          have hset : (e.slots.set (frame.base + out) v).drop frame.base
              = (e.slots.drop frame.base).set out v := by
            rw [List.drop_set, if_neg (by omega), Nat.add_sub_cancel_left]
          simp only
          rw [hset]
          exact hreach.step (step_of_effect hruns.cache hop (hresume v) (if_pos hlt))
      | returns ho =>
        rename_i o v
        rw [ho] at hwaits
        cases hwaits with
        | cons hf' hle hreach' hrest' =>
          refine .cons hf' (hreach' v) ?_
          rw [List.take_set_of_le hle]
          exact hrest'

/-- In every state an invocation reaches, the innermost frame is an activation of its function. -/
theorem reachable_refines (hS : S.Sealed env) {fuel : Nat} (h : (invocation S fuel).Reachable e) :
    Inv S e ∧ Refines S e.frames e.slots := by
  refine h.invariant (P := fun e => Inv S e ∧ Refines S e.frames e.slots) (fun e he => ?_)
    fun e input e' charged he hnext => ?_
  · obtain ⟨function, args, henter⟩ := he
    have hinv := Executor.enter_inv hS henter
    obtain ⟨g, hg, hargs, hfit, rfl⟩ := Executor.enter_eq henter
    exact ⟨hinv, .cons hg (Machine.Reachable.of_start ⟨args, if_pos ⟨hargs, hfit⟩⟩) .nil⟩
  · cases input with
    | cancel =>
      obtain ⟨rfl, -⟩ := Prod.mk.inj (Option.some.inj hnext)
      exact ⟨⟨he.1.frames, he.1.stack⟩, he.2⟩
    | instruction answer =>
      obtain ⟨hstep, -⟩ := Executor.next_instruction hnext
      have hends := Executor.step_stepped hS he.1 answer
      rw [hstep] at hends
      obtain ⟨frame, frames, f, op, hstepped⟩ := hends
      exact ⟨hstepped.inv hS he.1, refines_stepped hS he.1 hstepped he.2⟩

end Exec

end Rnx
