import Rnx.Exec.Frames

/-!
# Fuel

How many instructions an invocation executes.  A frame earns `maxGap` uncharged instructions with
each charged one, and a new frame starts at a charged instruction with none; since no path of its
function is uncharged for longer, it never spends more than it earned, however its instructions are
interleaved with those of its callees.
-/

namespace Rnx

namespace Exec

open Executor (Frame Moves Stepped Inv)

/-- What a frame at `pc` may still execute uncharged: nothing before its first instruction, and else
what the path behind it leaves of `maxGap`. -/
def Credit (f : Function) (pc c : Nat) : Prop :=
  (pc = 0 ∧ c = 0) ∨ ∃ n, n + c = maxGap ∧ (n = 0 ∨ ∃ p, f.Run n p ∧ f.Edge p pc)

variable {S : Setting} {env : Callees} {f : Function} {pc q c : Nat}

/-- The path that an uncharged instruction ends. -/
lemma Credit.run (hf : f.Charged) (h : Credit f pc c) (hun : f.isCharged pc = false) :
    ∃ n, n + c = maxGap ∧ f.Run (n + 1) pc := by
  obtain ⟨rfl, -⟩ | ⟨n, hn, hpath⟩ := h
  · rw [hf.first] at hun
    cases hun
  · refine ⟨n, hn, ?_⟩
    obtain rfl | ⟨p, hrun, hp⟩ := hpath
    · exact .single hun
    · exact .step hrun hp hun

/-- An uncharged instruction finds one left. -/
lemma Credit.pos (hf : f.Charged) (h : Credit f pc c) (hun : f.isCharged pc = false) : 1 ≤ c := by
  obtain ⟨n, hn, hrun⟩ := h.run hf hun
  have hle := hf.runs (n + 1) pc hrun
  omega

/-- An uncharged instruction spends one, and a charged one earns them all. -/
lemma Credit.step (hf : f.Charged) (h : Credit f pc c) (hedge : f.Edge pc q) :
    ∃ c', Credit f q c' ∧ 1 + c' ≤ c + (maxGap + 1) * (f.isCharged pc).toNat := by
  cases hc : f.isCharged pc with
  | true => exact ⟨maxGap, .inr ⟨0, Nat.zero_add _, .inl rfl⟩, by simp only [Bool.toNat_true]; omega⟩
  | false =>
    obtain ⟨n, hn, hrun⟩ := h.run hf hc
    have hle := hf.runs (n + 1) pc hrun
    refine ⟨c - 1, .inr ⟨n + 1, by omega, .inr ⟨pc, hrun, hedge⟩⟩, ?_⟩
    simp only [Bool.toNat_false]
    omega

/-- The frames with what they may still execute uncharged, in total. -/
inductive Credited (S : Setting) : List Frame → Nat → Prop
  | nil : Credited S [] 0
  | cons {frame : Frame} {frames : List Frame} {f : Function} {c n : Nat}
      (hf : S.functions[frame.function]? = some f) (hc : Credit f frame.pc c)
      (hrest : Credited S frames n) : Credited S (frame :: frames) (c + n)

variable {e e' : Executor} {frame : Frame} {frames : List Frame} {op : Op} {n : Nat}

/-- One instruction is paid for by what it spends or by what it costs. -/
lemma Stepped.credited (hS : S.Sealed env) (hinv : Inv S e)
    (hstep : Stepped S env e e' frame frames f op) (h : Credited S e.frames n) :
    e'.fuel = e.fuel - (f.isCharged frame.pc).toNat ∧
      ∃ n', Credited S e'.frames n' ∧
        1 + n' ≤ n + (maxGap + 1) * (f.isCharged frame.pc).toNat := by
  obtain ⟨hframes, hf, hop, -, hmoves⟩ := hstep
  obtain ⟨-, hstack⟩ := hinv
  rw [hframes] at h hstack
  obtain ⟨hruns, -⟩ := hS.runs hf
  cases hstack with
  | cons hf' hpc hn hout hrest =>
    obtain rfl := Option.some.inj (hf.symm.trans hf')
    cases h with
    | cons hf' hc hcredited =>
      rename_i c n
      obtain rfl := Option.some.inj (hf.symm.trans hf')
      cases hmoves with
      | inside heffect happly =>
        have hedge := Stepped.edge hruns hop hpc heffect
        obtain ⟨c', hc', hle⟩ := hc.step hruns.charged hedge
        have hpc' := Activation.apply_pc happly
        exact ⟨rfl, c' + n, .cons hf (hpc'.symm ▸ hc') hcredited, by omega⟩
      | calls hg hargs hlt hresume =>
        have hedge := Stepped.edge hruns hop hpc (hresume .unit)
        obtain ⟨c', hc', hle⟩ := hc.step hruns.charged hedge
        exact ⟨rfl, 0 + (c' + n), .cons hg (.inl ⟨rfl, rfl⟩) (.cons hf hc' hcredited), by omega⟩
      | returns ho =>
        refine ⟨rfl, n, hcredited, ?_⟩
        cases hcharged : f.isCharged frame.pc with
        | true =>
          simp only [Bool.toNat_true]
          omega
        | false =>
          have hpos := hc.pos hruns.charged hcharged
          omega

/-- The instructions of a history. -/
def instructions (l : List (Input × Option Bool)) : Nat := l.countP fun x => x.2.isSome

/-- The charged ones among them. -/
def chargedOnes (l : List (Input × Option Bool)) : Nat := l.countP fun x => x.2 == some true

/-- What a history that began with some fuel has cost, and what its frames may still spend. -/
structure Paid (S : Setting) (fuel : Nat) (l : List (Input × Option Bool)) (e : Executor) : Prop where
  inv : Inv S e
  charged : chargedOnes l + e.fuel = fuel
  credited : ∃ n, Credited S e.frames n ∧ instructions l + n ≤ (maxGap + 1) * chargedOnes l

lemma Paid.next {fuel : Nat} {l : List (Input × Option Bool)} {input : Input} {o : Option Bool}
    (hS : S.Sealed env) (h : Paid S fuel l e) (hnext : (invocation S fuel).next e input = some (e', o)) :
    Paid S fuel (l ++ [(input, o)]) e' := by
  cases input with
  | cancel =>
    obtain ⟨rfl, rfl⟩ := Prod.mk.inj (Option.some.inj hnext)
    obtain ⟨hinv, hcharged, n, hn, hle⟩ := h
    refine ⟨⟨hinv.frames, hinv.stack⟩, ?_, n, hn, ?_⟩
    · simpa [chargedOnes] using hcharged
    · simpa [chargedOnes, instructions] using hle
  | instruction answer =>
    obtain ⟨hstep, rfl⟩ := Executor.next_instruction hnext
    have hends := Executor.step_stepped hS h.inv answer
    rw [hstep] at hends
    obtain ⟨frame, frames, f, op, hstepped⟩ := hends
    obtain ⟨n, hn, hle⟩ := h.credited
    obtain ⟨hfuel, n', hn', hle'⟩ := Stepped.credited hS h.inv hstepped hn
    have hcharged := h.charged
    have henough := hstepped.fuel
    have hone : chargedOnes (l ++ [(Input.instruction answer, some (decide (e'.fuel ≠ e.fuel)))])
        = chargedOnes l + (f.isCharged frame.pc).toNat := by
      unfold chargedOnes
      rw [List.countP_append, List.countP_singleton]
      cases hc : f.isCharged frame.pc with
      | true =>
        rw [hc] at hfuel henough
        simp only [Bool.toNat_true] at hfuel henough ⊢
        rw [if_pos]
        simp only [beq_iff_eq, Option.some.injEq, decide_eq_true_eq]
        omega
      | false =>
        rw [hc] at hfuel
        simp only [Bool.toNat_false] at hfuel ⊢
        rw [if_neg]
        simp only [beq_iff_eq, Option.some.injEq, decide_eq_true_eq]
        omega
    have hcount : instructions (l ++ [(Input.instruction answer, some (decide (e'.fuel ≠ e.fuel)))])
        = instructions l + 1 := by
      unfold instructions
      rw [List.countP_append]
      rfl
    refine ⟨hstepped.inv hS h.inv, ?_, n', hn', ?_⟩
    · rw [hone]
      omega
    · rw [hone, hcount, Nat.mul_add]
      omega

end Exec

end Rnx
