import Rnx.Exec.Activation
import Rnx.Region.Loops

/-!
# Ranges behind an iterator

`proven_range` of `region/mod.rs`: a walk back from the only way into a loop, along instructions
that have a single earlier predecessor, to the `IterStart` that wrote the iterator and on to the
`Range` that wrote its operand.  Only instructions that are known to keep the sought slot are
crossed, and a copy renames it.
-/

namespace Rnx

namespace Region

namespace FunctionContext

variable (c : FunctionContext)

/-- The only reachable predecessor of an instruction, when it comes before it. -/
def previous (pc : Nat) : Option Nat :=
  match (c.preds pc).filter (· ∈ c.reachable) with
  | [source] => if source < pc then some source else none
  | _ => none

/-- What the walk makes of an instruction. -/
inductive Crossing
  | found
  | on (slot : Nat) (range : Bool)
  | lost
deriving DecidableEq

/-- An instruction against the sought slot: before the iterator is found, or behind it. -/
def crossing (slot : Nat) (range : Bool) : Op → Crossing
  | .iterStart out value => if range = false ∧ out = slot then .on value true else .lost
  | .range out _ _ => if range = true ∧ out = slot then .found else .lost
  | .copy out value => .on (if out = slot then value else slot) range
  | .literal out _ | .list out _ _ _ => if out ≠ slot then .on slot range else .lost
  | .release value => if value ≠ slot then .on slot range else .lost
  | .jump _ => .on slot range
  | _ => .lost

/-- The arcs come in the order of their targets, and for one target of their sources. -/
lemma edges_ordered : c.edges.Pairwise fun a b => a.1 < b.1 ∨ a.1 = b.1 ∧ a.2 ≤ b.2 := by
  refine (List.pairwise_mergeSort (fun a b d hab hbd => ?_) (fun a b => ?_) _).imp fun hab => ?_
  · rw [decide_eq_true_eq] at hab hbd ⊢
    omega
  · rw [Bool.or_eq_true, decide_eq_true_eq, decide_eq_true_eq]
    omega
  · exact of_decide_eq_true hab

lemma previous_lt {pc prev : Nat} (h : c.previous pc = some prev) : prev < pc := by
  unfold previous at h
  split at h
  · split_ifs at h with hlt
    obtain rfl := Option.some.inj h
    exact hlt
  · cases h

/-- The walk from an instruction. -/
def provenFrom (pc slot : Nat) (range : Bool) : Bool :=
  match c.f.operation pc with
  | .error _ => false
  | .ok op =>
      match crossing slot range op with
      | .found => true
      | .lost => false
      | .on slot range =>
          match _h : c.previous pc with
          | some prev => provenFrom prev slot range
          | none => false
termination_by pc
decreasing_by exact c.previous_lt _h

/-- `proven_range`, for a loop header, the slot of its iterator and the instructions of the loop. -/
def provenRange (header slot : Nat) (nodes : List Nat) : Bool :=
  match (c.preds header).filter fun source => source ∈ c.reachable && source ∉ nodes with
  | [start] => c.provenFrom start slot false
  | _ => false

end FunctionContext

/-! ## Histories -/

open Exec (Activation Reply History Trace)

/-- The value is what a `Range` of the history was answered. -/
def FromRange (f : Function) (l : History) (v : Value) : Prop :=
  ∃ (i : Nat) (b : Activation) (out start finish : Nat), l[i]? = some (Reply.value v, b) ∧
    f.operation b.pc = .ok (.range out start finish)

/-- The value is what an `IterStart` of the history was answered on a value from a `Range`. -/
def FromIterStart (f : Function) (l : History) (v : Value) : Prop :=
  ∃ (j : Nat) (b : Activation) (out value : Nat) (r : Value), l[j]? = some (Reply.value v, b) ∧
    f.operation b.pc = .ok (.iterStart out value) ∧ b.slots[value]? = some r ∧ FromRange f (l.take j) r

/-- What the walk looks for: the iterator, or the range behind it. -/
def Sought (f : Function) (range : Bool) (l : History) (v : Value) : Prop :=
  if range then FromRange f l v else FromIterStart f l v

lemma FromRange.append {f : Function} {l : History} {v : Value} (h : FromRange f l v)
    (l' : History) : FromRange f (l ++ l') v := by
  obtain ⟨i, b, out, start, finish, hi, hop⟩ := h
  refine ⟨i, b, out, start, finish, ?_, hop⟩
  rw [List.getElem?_append_left (List.getElem?_eq_some_iff.1 hi).1]
  exact hi

lemma FromIterStart.append {f : Function} {l : History} {v : Value} (h : FromIterStart f l v)
    (l' : History) : FromIterStart f (l ++ l') v := by
  obtain ⟨j, b, out, value, r, hj, hop, hr, hfrom⟩ := h
  have hlt := (List.getElem?_eq_some_iff.1 hj).1
  refine ⟨j, b, out, value, r, ?_, hop, hr, ?_⟩
  · rw [List.getElem?_append_left hlt]
    exact hj
  · rw [List.take_append_of_le_length (Nat.le_of_lt hlt)]
    exact hfrom

lemma Sought.append {f : Function} {range : Bool} {l : History} {v : Value}
    (h : Sought f range l v) (l' : History) : Sought f range (l ++ l') v := by
  cases range with
  | true => exact FromRange.append h l'
  | false => exact FromIterStart.append h l'

lemma FromRange.last {f : Function} {l : History} {b : Activation} {v : Value}
    {out start finish : Nat} (hop : f.operation b.pc = .ok (.range out start finish)) :
    FromRange f (l ++ [(.value v, b)]) v :=
  ⟨l.length, b, out, start, finish, List.getElem?_concat_length .., hop⟩

lemma FromIterStart.last {f : Function} {l : History} {b : Activation} {v r : Value}
    {out value : Nat} (hop : f.operation b.pc = .ok (.iterStart out value))
    (hr : b.slots[value]? = some r) (hfrom : FromRange f l r) :
    FromIterStart f (l ++ [(.value v, b)]) v := by
  refine ⟨l.length, b, out, value, r, List.getElem?_concat_length .., hop, hr, ?_⟩
  rw [List.take_left' rfl]
  exact hfrom

namespace FunctionContext

variable {c : FunctionContext} {F : FloatOps} {C : Exec.CastOps} {a b : Activation} {reply : Reply}
  {op : Op} {slot slot' pc prev : Nat} {range range' : Bool} {l : History}

/-- Where the walk ends, the sought value is what the instruction was answered. -/
lemma crossed_found {v : Value} {effect : Exec.Effect} (hc : crossing slot range op = .found)
    (heffect : a.effect F C reply op = some effect) (happly : a.apply effect = some b)
    (hv : b.slots[slot]? = some v) :
    range = true ∧ reply = .value v ∧ ∃ out start finish, op = .range out start finish := by
  unfold crossing at hc
  split at hc
  case h_2 out start finish =>
    split_ifs at hc with hout
    obtain ⟨w, hw, rfl⟩ := Option.map_eq_some_iff.1 heffect
    obtain ⟨hrange, rfl⟩ := hout
    obtain rfl := Activation.apply_here happly hv
    exact ⟨hrange, (Activation.handed_value hw).1, out, start, finish, rfl⟩
  all_goals first | cases hc | (split_ifs at hc)

/-- Crossing an instruction: the sought value was in the slot the walk goes on with, or is what an
`IterStart` was answered on that slot. -/
lemma crossed_on {v : Value} {effect : Exec.Effect}
    (hc : crossing slot range op = .on slot' range')
    (heffect : a.effect F C reply op = some effect) (happly : a.apply effect = some b)
    (hv : b.slots[slot]? = some v) :
    (range' = range ∧ a.slots[slot']? = some v) ∨
      (range = false ∧ range' = true ∧ reply = .value v ∧
        ∃ out r, op = .iterStart out slot' ∧ a.slots[slot']? = some r) := by
  unfold crossing at hc
  split at hc
  case h_1 out value =>
    split_ifs at hc with hout
    obtain ⟨rfl, rfl⟩ := Crossing.on.inj hc
    obtain ⟨w, hw, rfl⟩ := Option.map_eq_some_iff.1 heffect
    obtain ⟨hrange, rfl⟩ := hout
    obtain rfl := Activation.apply_here happly hv
    obtain ⟨hreply, hoperands⟩ := Activation.handed_value hw
    exact .inr ⟨hrange, rfl, hreply, out, _, rfl,
      List.getElem?_eq_getElem (hoperands value List.mem_cons_self)⟩
  case h_2 => split_ifs at hc
  case h_3 out value =>
    obtain ⟨rfl, rfl⟩ := Crossing.on.inj hc
    obtain ⟨w, hw, rfl⟩ := Option.map_eq_some_iff.1 heffect
    refine .inl ⟨rfl, ?_⟩
    split_ifs with hout
    · obtain rfl := hout
      obtain rfl := Activation.apply_here happly hv
      exact hw
    · exact Activation.apply_elsewhere happly hout hv
  case h_4 out value =>
    split_ifs at hc with hout
    obtain ⟨rfl, rfl⟩ := Crossing.on.inj hc
    obtain rfl := Option.some.inj heffect
    exact .inl ⟨rfl, Activation.apply_elsewhere happly hout hv⟩
  case h_5 out _ _ _ =>
    split_ifs at hc with hout
    obtain ⟨rfl, rfl⟩ := Crossing.on.inj hc
    obtain ⟨w, hw, rfl⟩ := Option.map_eq_some_iff.1 heffect
    exact .inl ⟨rfl, Activation.apply_elsewhere happly hout hv⟩
  case h_6 value =>
    split_ifs at hc with hout
    obtain ⟨rfl, rfl⟩ := Crossing.on.inj hc
    obtain rfl := Option.some.inj heffect
    exact .inl ⟨rfl, Activation.apply_elsewhere happly hout hv⟩
  case h_7 =>
    obtain ⟨rfl, rfl⟩ := Crossing.on.inj hc
    obtain rfl := Option.some.inj heffect
    obtain rfl := Option.some.inj happly
    exact .inl ⟨rfl, hv⟩
  case h_8 => cases hc

end FunctionContext

namespace FunctionContext

variable {c : FunctionContext} {F : FloatOps} {C : Exec.CastOps} {a b : Activation} {reply : Reply}
  {slot pc prev header : Nat} {range : Bool} {l : History} {body : List Nat}

/-- A step follows an edge. -/
lemma traced_edge (hf : c.f.prepareCache = .ok c.f) (h : a.step F C c.f reply = some b) :
    c.f.Edge a.pc b.pc := by
  obtain ⟨op, effect, hop, -⟩ := Activation.step_operation hf h
  obtain ⟨i, hi, -⟩ := Except.bind_eq_ok.1 hop
  obtain ⟨-, hat⟩ := Except.mapM_eq_ok c.found
  have hpc := (List.getElem?_eq_some_iff.1 (okOr_eq_ok.1 hi)).1
  obtain ⟨targets, -, hs⟩ := hat a.pc a.pc (List.getElem?_range hpc)
  exact Activation.step_edge hf ⟨targets, hs⟩ h

/-- A trace follows a path. -/
lemma trace_path (hf : c.f.prepareCache = .ok c.f) (h : Trace F C c.f l a) :
    ∃ path, Path c.f path a.pc := by
  induction h with
  | entry start =>
    rw [Activation.enter_pc start]
    exact ⟨[0], .entry⟩
  | step before step ih =>
    obtain ⟨path, hpath⟩ := ih
    exact ⟨_, .step hpath (traced_edge hf step)⟩

/-- The instruction a step of a trace stood at. -/
lemma trace_reachable (hf : c.f.prepareCache = .ok c.f) (h : Trace F C c.f l a)
    (hstep : a.step F C c.f reply = some b) : a.pc ∈ c.reachable := by
  obtain ⟨path, hpath⟩ := trace_path hf h
  have hlt := Function.edge_source_lt (traced_edge hf hstep)
  exact mem_reachable hpath (by omega)

/-- A step to an instruction with one earlier predecessor comes from there. -/
lemma comes_from (hf : c.f.prepareCache = .ok c.f) (h : Trace F C c.f l a)
    (hstep : a.step F C c.f reply = some b) (hprev : c.previous b.pc = some prev) :
    a.pc = prev := by
  unfold previous at hprev
  split at hprev
  · rename_i source hsource
    split_ifs at hprev with hlt
    obtain rfl := Option.some.inj hprev
    have hmem : a.pc ∈ (c.preds b.pc).filter (· ∈ c.reachable) :=
      List.mem_filter.2 ⟨mem_preds.2 (traced_edge hf hstep), decide_eq_true (trace_reachable hf h hstep)⟩
    rw [hsource] at hmem
    exact List.mem_singleton.1 hmem
  · cases hprev

/-- One step of the walk and one of the trace: the walk is at its end, or goes on from the
predecessor with what the instruction read. -/
lemma walked {v : Value} (hf : c.f.prepareCache = .ok c.f) (hstep : a.step F C c.f reply = some b)
    (hproven : c.provenFrom a.pc slot range = true) (hv : b.slots[slot]? = some v) :
    Sought c.f range (l ++ [(reply, a)]) v ∨
      ∃ prev slot' range' r, c.previous a.pc = some prev ∧
        c.provenFrom prev slot' range' = true ∧ a.slots[slot']? = some r ∧
        (Sought c.f range' l r → Sought c.f range (l ++ [(reply, a)]) v) := by
  obtain ⟨op, effect, hop, heffect, happly⟩ := Activation.step_operation hf hstep
  unfold provenFrom at hproven
  simp only [hop] at hproven
  split at hproven
  · rename_i hfound
    obtain ⟨rfl, rfl, out, start, finish, rfl⟩ := crossed_found hfound heffect happly hv
    exact .inl (FromRange.last hop)
  · cases hproven
  · rename_i slot' range' hon
    split at hproven
    · rename_i prev hprev
      right
      rcases crossed_on hon heffect happly hv with ⟨rfl, hr⟩ | ⟨rfl, rfl, rfl, out, r, rfl, hr⟩
      · exact ⟨prev, slot', range', v, hprev, hproven, hr, fun hsought => hsought.append _⟩
      · exact ⟨prev, slot', true, r, hprev, hproven, hr, fun hsought =>
          FromIterStart.last hop hr hsought⟩
    · cases hproven

/-- Behind an instruction from which the walk succeeds, the sought slot holds what it looks for:
each step back along the walk is a step back along the trace. -/
lemma provenFrom_sought (hf : c.f.prepareCache = .ok c.f) (h : Trace F C c.f l a) :
    ∀ {slot : Nat} {range : Bool} {b : Activation} {reply : Reply} {v : Value},
      a.step F C c.f reply = some b → c.provenFrom a.pc slot range = true →
      b.slots[slot]? = some v → Sought c.f range (l ++ [(reply, a)]) v := by
  induction h with
  | entry start =>
    intro slot range b reply v hstep hproven hv
    rcases walked hf hstep hproven hv with h | ⟨prev, _, _, _, hprev, _⟩
    · exact h
    · -- Nothing comes before the entry.
      have hlt := c.previous_lt hprev
      rw [Activation.enter_pc start] at hlt
      exact absurd hlt (Nat.not_lt_zero prev)
  | step before step ih =>
    intro slot range b reply v hstep hproven hv
    rcases walked hf hstep hproven hv with h | ⟨prev, slot', range', r, hprev, hrest, hr, hsought⟩
    · exact h
    · obtain rfl := comes_from hf before step hprev
      exact hsought (ih step hrest hr)

/-! ## The only way into a loop -/

/-- An arc to a header, from an instruction the header reaches and that is not before it, comes from
the body. -/
lemma back_mem (h : c.naturalLoop header element = .ok (.ok body))
    (hedge : c.f.Edge pc header) (hle : header ≤ pc)
    (hreach : Relation.ReflTransGen c.graph.Edge header pc) : pc ∈ body := by
  unfold naturalLoop at h
  split_ifs at h with hlt hcharged
  · cases Except.ok.inj h
  simp only at h
  split at h
  · cases Except.ok.inj h
  · rename_i inBody hgather
    split_ifs at h with hinner
    · cases Except.ok.inj h
    split at h
    · cases Except.ok.inj h
    · obtain rfl := Except.ok.inj (Except.ok.inj h)
      refine List.mem_filter.2 ⟨List.mem_range.2 (Function.edge_source_lt hedge), decide_eq_true ?_⟩
      refine (Worklist.gather_keeps hgather).2 pc (List.mem_reverse.2 (List.mem_filter.2 ⟨?_, ?_⟩))
      · refine List.mem_filter.2 ⟨mem_preds.2 hedge, decide_eq_true ?_⟩
        exact (Worklist.mem_explore c.graph).2 hreach
      · exact decide_eq_true hle

/-- What `provenRange` finds: one way into the loop, from which the walk succeeds. -/
lemma provenRange_start (h : c.provenRange header slot body = true) :
    ∃ start, (∀ pc, c.f.Edge pc header → pc ∈ c.reachable → pc ∉ body → pc = start) ∧
      (c.f.Edge start header ∧ start ∈ c.reachable ∧ start ∉ body) ∧
      c.provenFrom start slot false = true := by
  unfold provenRange at h
  split at h
  · rename_i start hstart
    have hmem : ∀ pc, (c.f.Edge pc header ∧ pc ∈ c.reachable ∧ pc ∉ body) ↔ pc = start := fun pc => by
      rw [← List.mem_singleton, ← hstart, List.mem_filter, mem_preds, Bool.and_eq_true,
        decide_eq_true_eq, decide_eq_true_eq]
    exact ⟨start, fun pc hedge hpc hout => (hmem pc).1 ⟨hedge, hpc, hout⟩, (hmem start).2 rfl, h⟩
  · cases h

/-- A proven loop does not begin at the entry of the function. -/
lemma proven_header_ne (hloop : c.naturalLoop header element = .ok (.ok body))
    (hproven : c.provenRange header slot body = true) : header ≠ 0 := by
  rintro rfl
  obtain ⟨start, -, ⟨hedge, hreach, hout⟩, -⟩ := provenRange_start hproven
  unfold reachable at hreach
  rw [if_pos (Function.edge_lt hedge), Worklist.mem_explore] at hreach
  exact hout (back_mem hloop hedge (Nat.zero_le start) hreach)

/-- **Proven ranges**: whenever an activation comes to an accepted header from outside the loop, the
slot in which a range was proven holds what an `IterStart` was answered on a value that a `Range`
before it was answered. -/
theorem proven_range (F : FloatOps) (C : Exec.CastOps) (c : FunctionContext)
    (hf : c.f.prepareCache = .ok c.f) (header slot : Nat) (element : Bool) (body : List Nat)
    (hloop : c.naturalLoop header element = .ok (.ok body))
    (hproven : c.provenRange header slot body = true) (a b : Activation) (l : History)
    (hstart : (Exec.activations F C c.f).start a) (hrun : (Exec.activations F C c.f).Run a l b)
    (hb : b.pc = header)
    (houtside : ∀ reply last, l.getLast? = some (reply, last) → last.pc ∉ body) (it : Value)
    (hit : b.slots[slot]? = some it) : FromIterStart c.f l it := by
  have htrace := Trace.of_run hstart hrun
  obtain ⟨start, honly, -, hwalk⟩ := provenRange_start hproven
  cases htrace with
  | entry henter =>
    rw [Activation.enter_pc henter] at hb
    exact absurd hb.symm (proven_header_ne hloop hproven)
  | step before hstep =>
    have hedge := traced_edge hf hstep
    rw [hb] at hedge
    have hfrom := honly _ hedge (trace_reachable hf before hstep)
      (houtside _ _ (List.getLast?_concat ..))
    rw [← hfrom] at hwalk
    exact provenFrom_sought hf before hstep hwalk hit

/-- A loop over a range of two parameters. -/
def counting : Function where
  cached := [⟨.range 2 0 1, true⟩, ⟨.iterStart 2 2, false⟩, ⟨.iterNext 0 2 4, true⟩, ⟨.jump 2, false⟩,
    ⟨.returnValue 0, true⟩]
  constants := []
  types := []
  ranges := []
  strings := []
  code := [⟨20, true, 2, 0, 1⟩, ⟨21, false, 2, 2, 0⟩, ⟨22, true, 0, 2, 4⟩, ⟨10, false, 2, 0, 0⟩,
    ⟨13, true, 0, 0, 0⟩]
  args := []
  slots := 3
  parameters := 2

def countingContext : FunctionContext := ⟨counting, [[1], [2], [3, 4], [2], []], by decide⟩

lemma countingContext_edges :
    countingContext.edges = [(1, 0), (2, 1), (2, 3), (3, 2), (4, 2)] := by
  refine List.Perm.eq_of_pairwise
    (fun a b _ _ hab hba => ?_) countingContext.edges_ordered
    (by decide)
    ((List.mergeSort_perm ..).trans (by decide))
  exact Prod.ext (by omega) (by omega)

lemma countingContext_preds : countingContext.preds 1 = [0] ∧ countingContext.preds 2 = [1, 3] ∧
    countingContext.preds 3 = [2] := by
  unfold preds
  rw [countingContext_edges]
  simp [Partition.partitionPoint, Partition.bisect]

lemma countingContext_reachable : countingContext.reachable = {0, 1, 2, 3, 4} := by
  unfold reachable
  rw [if_pos (by decide)]
  simp [Worklist.explore, Worklist.Graph.follow, graph, next, countingContext,
    Worklist.Marking.push]
  decide

lemma counting_loop : countingContext.naturalLoop 2 false = .ok (.ok [2, 3]) := by
  have hforward : Worklist.explore countingContext.graph {2} [2] = {2, 3, 4} := by
    simp [Worklist.explore, Worklist.Graph.follow, graph, next, countingContext,
      Worklist.Marking.push]
    decide
  obtain ⟨-, h2, h3⟩ := countingContext_preds
  have hgather : Worklist.gather maxRegionInstructions
      (fun pc => (countingContext.preds pc).filter (· ∈ ({2, 3, 4} : Finset Nat))) {2} [3] =
        some {2, 3} := by
    simp [Worklist.gather, h3, maxRegionInstructions]
    decide
  have hside : countingContext.sideEntry {2, 3} 3 = false := by
    unfold sideEntry
    rw [h3, countingContext_reachable]
    decide
  unfold naturalLoop
  simp only [hforward, h2]
  rw [if_neg (by decide), if_neg (by decide),
    show (([1, 3].filter (· ∈ ({2, 3, 4} : Finset Nat))).filter (2 ≤ ·)).reverse = [3] from by decide,
    hgather]
  have hbody : (List.range countingContext.f.code.length).filter (· ∈ ({2, 3} : Finset Nat)) =
      [2, 3] := by decide
  have hfind : [2, 3].find? (fun pc => pc ≠ 2 && countingContext.sideEntry {2, 3} pc) = none := by
    simp [hside]
  simp only [Bool.false_and, Bool.false_eq_true, if_false, hbody, hfind]

lemma counting_proven : countingContext.provenRange 2 2 [2, 3] = true := by
  obtain ⟨h1, h2, -⟩ := countingContext_preds
  have hprevious : countingContext.previous 1 = some 0 := by
    unfold previous
    rw [h1, countingContext_reachable]
    decide
  unfold provenRange
  rw [h2, countingContext_reachable,
    show ([1, 3].filter fun source => source ∈ ({0, 1, 2, 3, 4} : Finset Nat) && source ∉ [2, 3]) = [1]
      from by decide]
  simp only
  unfold provenFrom
  simp only [show countingContext.f.operation 1 = .ok (.iterStart 2 2) from rfl, crossing, true_and,
    if_true]
  rw [hprevious]
  unfold provenFrom
  rfl

def idleFloats : FloatOps :=
  ⟨fun a _ => a, fun a _ => a, fun a _ => a, fun a _ => a, fun a _ => a, id⟩

def idleCasts : Exec.CastOps :=
  ⟨fun _ => ⟨0⟩, fun _ => ⟨0⟩, fun _ => .ofWord 1, fun _ => Exec.asU64 (.ofWord 1)⟩

/-- The range of the parameters is proven at the header of their loop. -/
theorem proven_range_counting :
    FromIterStart counting [(.value (.heap ⟨0, 1⟩), ⟨0, [.bool true, .bool false, .unit]⟩),
      (.value (.heap ⟨1, 1⟩), ⟨1, [.bool true, .bool false, .heap ⟨0, 1⟩]⟩)] (.heap ⟨1, 1⟩) :=
  proven_range idleFloats idleCasts countingContext rfl 2 2 false [2, 3] counting_loop counting_proven
    ⟨0, [.bool true, .bool false, .unit]⟩ ⟨2, [.bool true, .bool false, .heap ⟨1, 1⟩]⟩ _
    ⟨[.bool true, .bool false], rfl⟩ (.cons rfl (.cons rfl (.nil _))) rfl
    (fun reply last h => by
      obtain ⟨rfl, rfl⟩ := Prod.mk.inj (Option.some.inj h)
      decide) _ rfl

end FunctionContext

end Region

end Rnx
