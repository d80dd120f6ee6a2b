import Mathlib.Data.List.Chain
import Rnx.Code.Program

/-!
# Where instructions are charged

The pass of `finish_validated` that decides which instructions cost fuel and look at a pending
cancellation.  It charges the entry and every target of a backward edge, and then walks the
instructions once, in order, with the longest uncharged path that ends just before each of them:
an instruction that would make such a path longer than `maxGap` is charged too.

Paths follow jumps, and the walk does not; `charges_placed` is the bound on every path.  Once the
backward targets are charged, an edge to an uncharged instruction goes forward, so whatever ends
before an instruction has been walked before it (`Walked`).
-/

namespace Rnx

/-- `MAX_GAP`. -/
def maxGap : Nat := 256

/-- `Instruction::charge`. -/
def Instruction.charge (i : Instruction) : Instruction := { i with charged := true }

/-- The targets of an operation at `pc`, in the order of the source. -/
def Op.targets (pc : Nat) : Op → List Nat
  | .returnValue _ | .panic _ => []
  | .iterNext _ _ done => [pc + 1, done]
  | .jump target => [target]
  | .branch _ yes no => [yes, no]
  | _ => [pc + 1]

namespace Function

/-- `successors`. -/
def successors (f : Function) (pc : Nat) : Except Error (List Nat) := do
  let op ← f.operation pc
  let out := op.targets pc
  ensure (∀ n ∈ out, n < f.code.length) invalid
  .ok out

/-- `is_charged` of the instruction at `pc`. -/
def isCharged (f : Function) (pc : Nat) : Bool := f.code[pc]?.elim false (·.charged)

/-- The function with the instruction at `pc` charged. -/
def charge (f : Function) (pc : Nat) : Function :=
  { f with code := f.code.modify pc Instruction.charge }

/-! ## The pass -/

/-- The targets behind the instruction at `pc`, charged. -/
def chargeTargets (f : Function) (pc : Nat) : Except Error Function := do
  let targets ← f.successors pc
  .ok (targets.foldl (fun f target => if target ≤ pc then f.charge target else f) f)

/-- The walk: the function as far as it is charged, and for each instruction the longest uncharged
path to it that has been met. -/
structure Walk where
  f : Function
  gap : List Nat

/-- A path of `next` uncharged instructions goes on to `target`. -/
def Walk.reach (f : Function) (pc next : Nat) (gap : List Nat) (target : Nat) :
    Except Error (List Nat) :=
  if pc < target ∧ f.isCharged target = false then
    .ok (gap.set target (max (gap[target]?.getD 0) next))
  else if target ≤ pc ∧ f.isCharged target = false then .error invalid
  else .ok gap

/-- One instruction of the walk. -/
def Walk.step (w : Walk) (pc : Nat) : Except Error Walk := do
  let next := if w.f.isCharged pc then 0 else w.gap[pc]?.getD 0 + 1
  let f := if maxGap < next then w.f.charge pc else w.f
  let next := if maxGap < next then 0 else next
  let targets ← f.successors pc
  let gap ← targets.foldlM (Walk.reach f pc next) w.gap
  .ok ⟨f, gap⟩

/-- The charges of one function. -/
def placeCharges (f : Function) : Except Error Function := do
  let _ ← okOr f.code.head? invalid
  let f ← (List.range f.code.length).foldlM chargeTargets (f.charge 0)
  let w ← (List.range f.code.length).foldlM Walk.step ⟨f, List.replicate f.code.length 0⟩
  .ok w.f

/-- What `finish_validated` does with a function whose operands are valid: the charges, and the
cache of the charged code. -/
def finishValidated (f : Function) : Except Error Function := do
  let f ← f.placeCharges
  f.prepareCache

/-! ## Charging changes no operation -/

/-- The control flow. -/
def Edge (f : Function) (pc q : Nat) : Prop := ∃ targets, f.successors pc = .ok targets ∧ q ∈ targets

/-- The same instructions, with some more of them charged. -/
structure Recharged (f g : Function) : Prop where
  length : g.code.length = f.code.length
  operation : ∀ pc, g.operation pc = f.operation pc
  charged : ∀ pc, f.isCharged pc = true → g.isCharged pc = true

variable {f g k : Function} {pc q n : Nat}

lemma Recharged.refl (f : Function) : Recharged f f := ⟨rfl, fun _ => rfl, fun _ h => h⟩

lemma Recharged.trans (h : Recharged f g) (h' : Recharged g k) : Recharged f k where
  length := h'.length.trans h.length
  operation pc := (h'.operation pc).trans (h.operation pc)
  charged pc hc := h'.charged pc (h.charged pc hc)

lemma Recharged.successors (h : Recharged f g) (pc : Nat) : g.successors pc = f.successors pc := by
  unfold Function.successors
  rw [h.operation pc, h.length]

lemma Recharged.edge (h : Recharged f g) : g.Edge pc q ↔ f.Edge pc q := by
  unfold Edge
  rw [h.successors pc]

lemma Recharged.uncharged (h : Recharged f g) (hq : g.isCharged q = false) :
    f.isCharged q = false := by
  by_contra hf
  rw [h.charged q (by simpa using hf)] at hq
  cases hq

lemma isCharged_charge : (f.charge pc).isCharged q =
    if pc = q ∧ q < f.code.length then true else f.isCharged q := by
  unfold isCharged charge
  rw [List.getElem?_modify]
  by_cases hq : q < f.code.length
  · rw [List.getElem?_eq_getElem hq]
    by_cases hpc : pc = q
    · simp [hpc, hq, Instruction.charge]
    · simp [hpc]
  · rw [List.getElem?_eq_none (by omega)]
    simp [hq]

lemma recharged_charge (f : Function) (pc : Nat) : Recharged f (f.charge pc) where
  length := List.length_modify ..
  operation q := by
    unfold operation charge
    rw [List.getElem?_modify]
    cases f.code[q]? with
    | none => rfl
    | some i => by_cases hpc : pc = q <;> simp [hpc, okOr, Instruction.charge] <;> rfl
  charged q h := by
    rw [isCharged_charge, h]
    exact ite_self _

lemma lt_of_successors {targets : List Nat} (h : f.successors pc = .ok targets) :
    pc < f.code.length := by
  obtain ⟨op, hop, -⟩ := Except.bind_eq_ok.1 h
  obtain ⟨i, hi, -⟩ := Except.bind_eq_ok.1 hop
  exact (List.getElem?_eq_some_iff.1 (okOr_eq_ok.1 hi)).1

lemma edge_source_lt (h : f.Edge pc q) : pc < f.code.length := by
  obtain ⟨targets, ht, -⟩ := h
  exact lt_of_successors ht

lemma edge_lt (h : f.Edge pc q) : q < f.code.length := by
  obtain ⟨targets, ht, hq⟩ := h
  obtain ⟨op, -, ht⟩ := Except.bind_eq_ok.1 ht
  obtain ⟨u, hall, ht⟩ := Except.bind_eq_ok.1 ht
  obtain rfl := Except.ok.inj ht
  exact ensure_eq_ok.1 hall q hq

/-! ## The backward targets -/

lemma recharged_targets (f : Function) (pc : Nat) (targets : List Nat) :
    Recharged f (targets.foldl (fun f t => if t ≤ pc then f.charge t else f) f) ∧
      ∀ t ∈ targets, t ≤ pc → t < f.code.length →
        (targets.foldl (fun f t => if t ≤ pc then f.charge t else f) f).isCharged t = true := by
  induction targets generalizing f with
  | nil => exact ⟨.refl f, by simp⟩
  | cons a targets ih =>
    rw [List.foldl_cons]
    have hstep : Recharged f (if a ≤ pc then f.charge a else f) := by
      split_ifs
      · exact recharged_charge f a
      · exact .refl f
    obtain ⟨hrest, hall⟩ := ih (if a ≤ pc then f.charge a else f)
    refine ⟨hstep.trans hrest, fun t ht hle hlt => ?_⟩
    rcases List.mem_cons.1 ht with rfl | ht
    · refine hrest.charged t ?_
      rw [if_pos hle, isCharged_charge, if_pos ⟨rfl, hlt⟩]
    · exact hall t ht hle (by rw [hstep.length]; exact hlt)

lemma chargeTargets_ends (f : Function) (pc : Nat) :
    (chargeTargets f pc).Ends
      (fun g => Recharged f g ∧ ∀ q, f.Edge pc q → q ≤ pc → g.isCharged q = true)
      fun _ => True := by
  unfold chargeTargets
  rcases hs : f.successors pc with e | targets
  · exact trivial
  · obtain ⟨hr, hall⟩ := recharged_targets f pc targets
    refine ⟨hr, fun q hedge hle => ?_⟩
    have hlt := edge_lt hedge
    obtain ⟨targets', ht, hq⟩ := hedge
    obtain rfl := Except.ok.inj (hs.symm.trans ht)
    exact hall q hq hle hlt

/-- Every edge that does not go forward leads to a charged instruction. -/
def Backward (f : Function) : Prop := ∀ pc q, f.Edge pc q → q ≤ pc → f.isCharged q = true

lemma Recharged.backward (h : Recharged f g) (hf : f.Backward) : g.Backward :=
  fun pc q hedge hle => h.charged q (hf pc q (h.edge.1 hedge) hle)

lemma chargeTargets_all (f : Function) :
    ((List.range f.code.length).foldlM chargeTargets f).Ends
      (fun g => Recharged f g ∧ g.Backward) fun _ => True := by
  refine (Except.ends_foldlM (fun n g => Recharged f g ∧
    ∀ pc q, pc < n → f.Edge pc q → q ≤ pc → g.isCharged q = true) ⟨.refl f, by simp⟩
    fun n hn g hg => ?_).mono (fun g hg => ?_) fun _ h => h
  · rw [List.getElem_range]
    refine (chargeTargets_ends g n).mono (fun g' hg' => ?_) fun _ h => h
    refine ⟨hg.1.trans hg'.1, fun pc q hpc hedge hle => ?_⟩
    rcases Nat.lt_succ_iff_lt_or_eq.1 hpc with hlt | rfl
    · exact hg'.1.charged q (hg.2 pc q hlt hedge hle)
    · exact hg'.2 q (hg.1.edge.2 hedge) hle
  · rw [List.length_range] at hg
    exact ⟨hg.1, fun pc q hedge hle =>
      hg.2 pc q (edge_source_lt (hg.1.edge.1 hedge)) (hg.1.edge.1 hedge) hle⟩

/-! ## The walk -/

/-- A path of `n` uncharged instructions that ends at `pc`. -/
inductive Run (f : Function) : Nat → Nat → Prop
  | single {pc : Nat} : f.isCharged pc = false → Run f 1 pc
  | step {n pc q : Nat} : Run f n pc → f.Edge pc q → f.isCharged q = false → Run f (n + 1) q

lemma Run.uncharged (h : Run f n pc) : f.isCharged pc = false := by
  cases h with
  | single hpc => exact hpc
  | step _ _ hpc => exact hpc

lemma Recharged.run (h : Recharged f g) (hrun : Run g n pc) : Run f n pc := by
  induction hrun with
  | single hpc => exact .single (h.uncharged hpc)
  | step _ hedge hq ih => exact .step ih (h.edge.1 hedge) (h.uncharged hq)

/-- What `Walk.reach` writes down for the targets of one instruction. -/
lemma reach_all {targets gap gap' : List Nat} {next : Nat}
    (h : targets.foldlM (Walk.reach f pc next) gap = .ok gap') :
    gap'.length = gap.length ∧ (∀ t : Nat, gap[t]?.getD 0 ≤ gap'[t]?.getD 0) ∧
      ∀ t ∈ targets, pc < t → t < gap.length → f.isCharged t = false →
        next ≤ gap'[t]?.getD 0 := by
  induction targets generalizing gap with
  | nil =>
    obtain rfl := Except.ok.inj h
    exact ⟨rfl, fun _ => Nat.le_refl _, by simp⟩
  | cons a targets ih =>
    rw [List.foldlM_cons] at h
    obtain ⟨mid, hmid, h⟩ := Except.bind_eq_ok.1 h
    obtain ⟨hlength, hle, hall⟩ := ih h
    have hfirst : mid.length = gap.length ∧ (∀ t : Nat, gap[t]?.getD 0 ≤ mid[t]?.getD 0) ∧
        (pc < a → a < gap.length → f.isCharged a = false → next ≤ mid[a]?.getD 0) := by
      unfold Walk.reach at hmid
      split_ifs at hmid with hforward hback
      · obtain rfl := Except.ok.inj hmid
        refine ⟨List.length_set, fun t => ?_, fun _ ha _ => ?_⟩
        · rw [List.getElem?_set]
          by_cases hat : a = t
          · subst hat
            by_cases hlt : a < gap.length
            · simp [hlt]
            · simp [hlt]
          · simp [hat]
        · simp [ha]
      · obtain rfl := Except.ok.inj hmid
        exact ⟨rfl, fun _ => Nat.le_refl _, fun hpc _ hun => absurd ⟨hpc, hun⟩ hforward⟩
    refine ⟨hlength.trans hfirst.1, fun t => (hfirst.2.1 t).trans (hle t),
      fun t ht hpc hlt hun => ?_⟩
    rcases List.mem_cons.1 ht with rfl | ht
    · exact (hfirst.2.2 hpc hlt hun).trans (hle t)
    · exact hall t ht hpc (by rw [hfirst.1]; exact hlt) hun

/-- Before the walk reaches instruction `n`: the uncharged paths that end earlier are short, and
are written down where they go on. -/
structure Walked (f : Function) (n : Nat) (w : Walk) : Prop where
  recharged : Recharged f w.f
  length : w.gap.length = f.code.length
  runs : ∀ k q, Run w.f k q → q < n → k ≤ maxGap ∧
    ∀ t, n ≤ t → f.Edge q t → w.f.isCharged t = false → k ≤ w.gap[t]?.getD 0

/-- An uncharged path that ends at `n` comes from an earlier instruction. -/
lemma Walked.run_le {w : Walk} {k : Nat} (h : Walked f n w) (hback : f.Backward)
    (hrun : Run w.f k n) : k ≤ w.gap[n]?.getD 0 + 1 := by
  cases hrun with
  | single _ => omega
  | @step k p _ hrun hedge hn =>
    have hedge := h.recharged.edge.1 hedge
    have hlt : p < n := by
      by_contra hle
      rw [h.recharged.charged n (hback p n hedge (by omega))] at hn
      cases hn
    have := (h.runs k p hrun hlt).2 n (Nat.le_refl n) hedge hn
    omega

lemma Walked.step {w : Walk} (h : Walked f n w) (hback : f.Backward) :
    (w.step n).Ends (Walked f (n + 1)) fun _ => True := by
  rcases hw : w.step n with e | w'
  · exact trivial
  obtain ⟨targets, ht, hw⟩ := Except.bind_eq_ok.1 hw
  obtain ⟨gap, hgap, hw⟩ := Except.bind_eq_ok.1 hw
  obtain rfl := Except.ok.inj hw
  set next := if w.f.isCharged n then 0 else w.gap[n]?.getD 0 + 1 with hnext
  set g := if maxGap < next then w.f.charge n else w.f with hg
  have hcharge : Recharged w.f g := by
    rw [hg]
    split_ifs
    · exact recharged_charge w.f n
    · exact .refl w.f
  have hrecharged : Recharged f g := h.recharged.trans hcharge
  obtain ⟨hlength, hle, hall⟩ := reach_all hgap
  rw [hrecharged.successors] at ht
  refine ⟨hrecharged, hlength.trans h.length, fun k q hrun hq => ?_⟩
  have hrun' := hcharge.run hrun
  rcases Nat.lt_succ_iff_lt_or_eq.1 hq with hlt | rfl
  · obtain ⟨hmax, hold⟩ := h.runs k q hrun' hlt
    refine ⟨hmax, fun t htn hedge hun => ?_⟩
    exact (hold t (by omega) hedge (hcharge.uncharged hun)).trans (hle t)
  · -- The instruction itself stays uncharged, so its own count is within the bound.
    have hun := hrun.uncharged
    have hcount : next = w.gap[q]?.getD 0 + 1 := by
      rw [hnext, hcharge.uncharged hun]
      rfl
    have hshort : ¬maxGap < next := by
      intro hlong
      have hlt : q < w.f.code.length := by
        rw [h.recharged.length]
        exact lt_of_successors ht
      rw [hg, if_pos hlong, isCharged_charge, if_pos ⟨rfl, hlt⟩] at hun
      cases hun
    have hk := h.run_le hback hrun'
    rw [if_neg hshort] at hall
    refine ⟨by omega, fun t htn hedge hunt => ?_⟩
    obtain ⟨targets', ht', hmem⟩ := id hedge
    obtain rfl := Except.ok.inj (ht.symm.trans ht')
    have hnext := hall t hmem (by omega) (by rw [h.length]; exact edge_lt hedge) hunt
    exact (hk.trans (Nat.le_of_eq hcount.symm)).trans hnext

lemma Walked.all (hback : f.Backward) :
    ((List.range f.code.length).foldlM Walk.step ⟨f, List.replicate f.code.length 0⟩).Ends
      (Walked f f.code.length) fun _ => True := by
  have hstart : Walked f 0 ⟨f, List.replicate f.code.length 0⟩ :=
    ⟨.refl f, List.length_replicate, fun _ _ _ hq => absurd hq (Nat.not_lt_zero _)⟩
  have hrun : ((List.range f.code.length).foldlM Walk.step ⟨f, List.replicate f.code.length 0⟩).Ends
      (Walked f (List.range f.code.length).length) fun _ => True := by
    apply Except.ends_foldlM (Walked f) hstart
    intro n hn w hw
    rw [List.getElem_range]
    exact hw.step hback
  rwa [List.length_range] at hrun

/-! ## The charges -/

/-- What the pass guarantees: the entry is charged, edges that do not go forward lead to charged
instructions, and no path is uncharged for longer than `maxGap`. -/
structure Charged (f : Function) : Prop where
  first : f.isCharged 0 = true
  backward : f.Backward
  runs : ∀ n pc, Run f n pc → n ≤ maxGap

lemma placeCharges_ends (f : Function) :
    f.placeCharges.Ends (fun g => Recharged f g ∧ g.Charged) fun _ => True := by
  unfold placeCharges
  refine Except.Ends.bind (Q := fun _ => f.code ≠ []) (E := fun _ => True) ?_ fun i hcode => ?_
  · cases f.code with
    | nil => exact trivial
    | cons i code => exact List.cons_ne_nil i code
  · have hfirst : (f.charge 0).isCharged 0 = true := by
      rw [isCharged_charge, if_pos ⟨rfl, List.length_pos_of_ne_nil hcode⟩]
    have hlength := (recharged_charge f 0).length
    have htargets := chargeTargets_all (f.charge 0)
    rw [hlength] at htargets
    refine htargets.bind fun g hg => ?_
    refine (Walked.all hg.2).bind fun w hw => ?_
    have hr : Recharged f w.f := (recharged_charge f 0).trans (hg.1.trans hw.recharged)
    refine ⟨hr, hw.recharged.charged 0 (hg.1.charged 0 hfirst), hw.recharged.backward hg.2,
      fun n pc hrun => ?_⟩
    by_cases hpc : pc < g.code.length
    · exact (hw.runs n pc hrun hpc).1
    · -- Nothing leads out of the code.
      cases hrun with
      | single _ => decide
      | step _ hedge _ => exact absurd (hw.recharged.length ▸ edge_lt hedge) hpc

/-- The paths of uncharged instructions, as lists. -/
lemma run_of_isChain {path : List Nat} (hpath : path.IsChain f.Edge)
    (hun : ∀ pc ∈ path, f.isCharged pc = false) {last : Nat} (hlast : path.getLast? = some last) :
    Run f path.length last := by
  induction path using List.reverseRecOn generalizing last with
  | nil => cases hlast
  | append_singleton path pc ih =>
    rw [List.getLast?_concat] at hlast
    obtain rfl := Option.some.inj hlast
    rw [List.length_append]
    have hpc := hun pc (by simp)
    cases hp : path.getLast? with
    | none =>
      rw [List.getLast?_eq_none_iff.1 hp]
      exact .single hpc
    | some p =>
      have hedge := (List.isChain_append.1 hpath).2.2 p hp pc rfl
      exact .step (ih hpath.left_of_append (fun q hq => hun q (by simp [hq])) hp) hedge hpc

/-- A cycle leads back: one of its edges does not go forward. -/
lemma Charged.cycle (h : f.Charged) {cycle : List Nat} {first last : Nat}
    (hpath : cycle.IsChain f.Edge) (hfirst : cycle.head? = some first)
    (hlast : cycle.getLast? = some last) (hedge : f.Edge last first) :
    ∃ pc ∈ cycle, f.isCharged pc = true := by
  by_contra hnone
  have hun : ∀ pc ∈ cycle, f.isCharged pc = false := by
    intro pc hpc
    by_contra hc
    exact hnone ⟨pc, hpc, by simpa using hc⟩
  have hforward : ∀ p q, q ∈ cycle → f.Edge p q → p < q := by
    intro p q hq hpq
    by_contra hle
    have hcharged := h.backward p q hpq (by omega)
    rw [hun q hq] at hcharged
    cases hcharged
  have hlt : cycle.IsChain (· < ·) := hpath.imp_of_mem_imp fun p q _ hq => hforward p q hq
  have hback := hforward last first (List.mem_of_mem_head? hfirst) hedge
  cases cycle with
  | nil => cases hfirst
  | cons a rest =>
    obtain rfl := Option.some.inj hfirst
    rcases List.mem_cons.1 (List.mem_of_mem_getLast? hlast) with rfl | hrest
    · exact Nat.lt_irrefl _ hback
    · have hle := List.rel_of_pairwise_cons (List.isChain_iff_pairwise.1 hlt) hrest
      omega

/-! ## The finished function -/

lemma cached_charged (h : f.prepareCache = .ok f) {i : CachedInstruction}
    (hi : f.cached[pc]? = some i) : i.charged = f.isCharged pc := by
  obtain ⟨hlength, hat⟩ := cached_of_prepareCache h
  have hlt := (List.getElem?_eq_some_iff.1 hi).1
  rw [hlength] at hlt
  obtain ⟨op, -, hcached⟩ := hat pc f.code[pc] (List.getElem?_eq_getElem hlt)
  obtain rfl := Option.some.inj (hi.symm.trans hcached)
  unfold isCharged
  rw [List.getElem?_eq_getElem hlt]
  rfl

/-- The cache is beside the code. -/
lemma prepareCache_recharged (h : f.prepareCache = .ok g) :
    Recharged f g ∧ g.prepareCache = .ok g := by
  obtain ⟨cached, hm, hg⟩ := Except.bind_eq_ok.1 h
  obtain rfl := Except.ok.inj hg
  exact ⟨⟨rfl, fun _ => rfl, fun _ h => h⟩, h⟩

lemma Recharged.keeps (h : Recharged f g) (hf : f.Charged) : g.Charged where
  first := h.charged 0 hf.first
  backward := h.backward hf.backward
  runs n pc hrun := hf.runs n pc (h.run hrun)

/-- In a finished function the entry is charged, every cycle of the control flow has a charged
instruction, and on no path do more than `maxGap` instructions follow one another without a charge;
and the cache, which the executor reads, is charged where the code is. -/
theorem charges_placed (h : f.finishValidated = .ok g) :
    g.isCharged 0 = true ∧
      (∀ (cycle : List Nat) (first last : Nat), cycle.IsChain g.Edge → cycle.head? = some first →
        cycle.getLast? = some last → g.Edge last first → ∃ pc ∈ cycle, g.isCharged pc = true) ∧
      (∀ path run : List Nat, path.IsChain g.Edge → run <:+: path →
        (∀ pc ∈ run, g.isCharged pc = false) → run.length ≤ maxGap) ∧
      ∀ (pc : Nat) (i : CachedInstruction), g.cached[pc]? = some i → i.charged = g.isCharged pc := by
  obtain ⟨mid, hmid, hcache⟩ := Except.bind_eq_ok.1 h
  obtain ⟨hr, hprepared⟩ := prepareCache_recharged hcache
  have hends := placeCharges_ends f
  rw [hmid] at hends
  have hcharged : g.Charged := hr.keeps hends.2
  refine ⟨hcharged.first, fun cycle first last hpath hfirst hlast hedge =>
    hcharged.cycle hpath hfirst hlast hedge, fun path run hpath hinfix hun => ?_,
    fun pc i hi => cached_charged hprepared hi⟩
  cases hrun : run.getLast? with
  | none =>
    rw [List.getLast?_eq_none_iff.1 hrun]
    exact Nat.zero_le _
  | some last =>
    have hpart := List.IsChain.infix hpath hinfix
    exact hcharged.runs _ _ (run_of_isChain hpart hun hrun)

/-- A loop: a branch out of it, a jump back, and a return. -/
def loopSample : Function where
  cached := []
  constants := []
  types := []
  ranges := []
  strings := []
  code := [⟨11, false, 0, 1, 2⟩, ⟨10, false, 0, 0, 0⟩, ⟨13, false, 0, 0, 0⟩]
  args := []
  slots := 1
  parameters := 1

theorem charges_placed_loop :
    ∃ g, loopSample.finishValidated = .ok g ∧ ∃ pc ∈ [0, 1], g.isCharged pc = true := by
  refine ⟨_, rfl, (charges_placed (f := loopSample) rfl).2.1 [0, 1] 0 1 ?_ rfl rfl ?_⟩
  · exact .cons_cons ⟨[1, 2], rfl, by decide⟩ (.singleton 1)
  · exact ⟨[0], rfl, by decide⟩

end Function

end Rnx
