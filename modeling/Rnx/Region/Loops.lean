import Rnx.Code.Charge
import Rnx.Lib.Partition
import Rnx.Lib.Worklist

/-!
# Natural loops

The graph of a function and the loop test of `analyze_header` (`region/mod.rs`): the instructions
that lead back to a header, which only the header may enter.  What the analysis does with an
accepted loop afterwards keeps its instructions or refuses it.
-/

namespace Rnx

namespace Region

/-- `MAX_REGION_INSTRUCTIONS`. -/
def maxRegionInstructions : Nat := 1024

/-- `RegionRefusal`, as far as the loop test goes. -/
inductive LoopRefusal
  | collectionInner | notCharged | size
  | sideEntry (pc : Nat)
deriving DecidableEq, Repr

/-- `FunctionContext`: a function, with the targets that were found of each instruction. -/
structure FunctionContext where
  f : Function
  targets : List (List Nat)
  found : (List.range f.code.length).mapM f.successors = .ok targets

namespace FunctionContext

/-- `FunctionContext::new`. -/
def new (f : Function) : Except Error FunctionContext :=
  match h : (List.range f.code.length).mapM f.successors with
  | .ok targets => .ok ⟨f, targets, h⟩
  | .error e => .error e

variable (c : FunctionContext)

/-- The targets of an instruction. -/
def next (pc : Nat) : List Nat := c.targets[pc]?.getD []

/-- The arcs, by their target and then their source. -/
def edges : List (Nat × Nat) :=
  ((List.range c.f.code.length).flatMap fun pc => (c.next pc).map fun target => (target, pc)).mergeSort
    fun a b => a.1 < b.1 ∨ a.1 = b.1 ∧ a.2 ≤ b.2

/-- `preds`: the sources of the arcs to an instruction. -/
def preds (pc : Nat) : List Nat :=
  let start := Partition.partitionPoint (fun e : Nat × Nat => e.1 < pc) c.edges
  let stop := Partition.partitionPoint (fun e : Nat × Nat => e.1 ≤ pc) c.edges
  ((c.edges.take stop).drop start).map Prod.snd

variable {c} {pc q header : Nat}

lemma mem_next : q ∈ c.next pc ↔ c.f.Edge pc q := by
  obtain ⟨hlength, hat⟩ := Except.mapM_eq_ok c.found
  rw [List.length_range] at hlength
  unfold next
  by_cases hpc : pc < c.f.code.length
  · obtain ⟨targets, ht, hs⟩ := hat pc pc (List.getElem?_range hpc)
    rw [ht]
    refine ⟨fun hq => ⟨targets, hs, hq⟩, fun ⟨targets', hs', hq⟩ => ?_⟩
    obtain rfl := Except.ok.inj (hs.symm.trans hs')
    exact hq
  · rw [List.getElem?_eq_none (by omega)]
    exact ⟨fun hq => absurd hq List.not_mem_nil, fun hq => absurd (Function.edge_source_lt hq) hpc⟩

variable (c)

/-- The graph of the function. -/
def graph : Worklist.Graph Nat where
  nodes := Finset.range c.f.code.length
  next := c.next
  closed _ _ h := Finset.mem_range.2 (Function.edge_lt (mem_next.1 h))

/-- The instructions that the entry reaches. -/
def reachable : Finset Nat :=
  if 0 < c.f.code.length then Worklist.explore c.graph {0} [0] else ∅

/-! ## The loop test -/

/-- An inner loop that is charged before the header. -/
def innerLoop (forward : Finset Nat) (header : Nat) : Bool :=
  (List.range header).any fun q =>
    q ∈ forward && c.f.isCharged q && (c.preds q).any fun source => header ≤ source

/-- An entry to a body instruction from outside the body. -/
def sideEntry (body : Finset Nat) (pc : Nat) : Bool :=
  pc = 0 || (c.preds pc).any fun source => source ∈ c.reachable && source ∉ body

/-- The loop test of `analyze_header`, for a candidate with a collection or without: the body of
the natural loop of a header. -/
def naturalLoop (header : Nat) (element : Bool) : Except Error (Except LoopRefusal (List Nat)) :=
  if c.f.code.length ≤ header then .error invalid
  else if c.f.isCharged header = false then .ok (.error .notCharged)
  else
    let forward := Worklist.explore c.graph {header} [header]
    let prev := fun pc => (c.preds pc).filter (· ∈ forward)
    let sources := (prev header).filter (header ≤ ·)
    match Worklist.gather maxRegionInstructions prev {header} sources.reverse with
    | none => .ok (.error .size)
    | some inBody =>
        if element && c.innerLoop forward header then .ok (.error .collectionInner)
        else
          let body := (List.range c.f.code.length).filter (· ∈ inBody)
          match body.find? fun pc => pc ≠ header && c.sideEntry inBody pc with
          | some pc => .ok (.error (.sideEntry pc))
          | none => .ok (.ok body)

end FunctionContext

/-! ## Paths -/

/-- The instructions a path from the entry passes, and where it ends. -/
inductive Path (f : Function) : List Nat → Nat → Prop
  | entry : Path f [0] 0
  | step {path : List Nat} {pc q : Nat} : Path f path pc → f.Edge pc q → Path f (path ++ [q]) q

/-- A step between two instructions of a body. -/
def Inside (f : Function) (body : List Nat) (pc q : Nat) : Prop :=
  f.Edge pc q ∧ pc ∈ body ∧ q ∈ body

namespace FunctionContext

variable {c : FunctionContext} {pc q header : Nat} {path body : List Nat} {element : Bool}

/-- The arcs come in the order of their targets. -/
lemma edges_sorted : c.edges.Pairwise fun a b => a.1 ≤ b.1 := by
  refine (List.pairwise_mergeSort (fun a b d hab hbd => ?_) (fun a b => ?_) _).imp fun hab => ?_
  · rw [decide_eq_true_eq] at hab hbd ⊢
    omega
  · rw [Bool.or_eq_true, decide_eq_true_eq, decide_eq_true_eq]
    omega
  · rw [decide_eq_true_eq] at hab
    omega

lemma mem_edges : (pc, q) ∈ c.edges ↔ c.f.Edge q pc := by
  unfold edges
  rw [List.mem_mergeSort, List.mem_flatMap]
  constructor
  · rintro ⟨source, -, harc⟩
    obtain ⟨target, htarget, heq⟩ := List.mem_map.1 harc
    obtain ⟨rfl, rfl⟩ := Prod.mk.inj heq
    exact mem_next.1 htarget
  · intro hedge
    exact ⟨q, List.mem_range.2 (Function.edge_source_lt hedge),
      List.mem_map.2 ⟨pc, mem_next.2 hedge, rfl⟩⟩

lemma mem_preds : q ∈ c.preds pc ↔ c.f.Edge q pc := by
  have hdown : ∀ a b : Nat × Nat, a.1 ≤ b.1 →
      (decide (b.1 ≤ pc) = true → decide (a.1 ≤ pc) = true) ∧
        (decide (b.1 < pc) = true → decide (a.1 < pc) = true) := fun a b hab => by
    simp only [decide_eq_true_eq]
    omega
  have hsorted := edges_sorted (c := c)
  have htake := Partition.take_partitionPoint hsorted fun a b hab => (hdown a b hab).1
  have hlow := Partition.partitionPoint_eq hsorted fun a b hab => (hdown a b hab).2
  -- The arcs before the first one to `pc` are all among those that are taken.
  have hstart : Partition.partitionPoint (fun e : Nat × Nat => decide (e.1 < pc)) c.edges =
      Partition.partitionPoint (fun e : Nat × Nat => decide (e.1 < pc))
        (c.edges.filter fun e => decide (e.1 ≤ pc)) := by
    rw [hlow, Partition.partitionPoint_eq (hsorted.sublist List.filter_sublist)
      fun a b hab => (hdown a b hab).2, List.filter_filter]
    congr 1
    refine List.filter_congr fun e _ => ?_
    rw [Bool.and_eq_left_iff_imp.2 fun h => decide_eq_true (by rw [decide_eq_true_eq] at h; omega)]
  have hpreds : c.preds pc =
      ((c.edges.filter fun e => decide (e.1 ≤ pc)).filter fun e => !decide (e.1 < pc)).map Prod.snd := by
    unfold preds
    simp only [htake]
    rw [hstart, Partition.drop_partitionPoint (hsorted.sublist List.filter_sublist)
      fun a b hab => (hdown a b hab).2]
  rw [hpreds, List.mem_map]
  constructor
  · rintro ⟨⟨target, source⟩, he, rfl⟩
    obtain ⟨he, hge⟩ := List.mem_filter.1 he
    obtain ⟨he, hle⟩ := List.mem_filter.1 he
    rw [Bool.not_eq_true', decide_eq_false_iff_not] at hge
    rw [decide_eq_true_eq] at hle
    have htarget : target = pc := by omega
    rw [htarget] at he
    exact mem_edges.1 he
  · intro hedge
    refine ⟨(pc, q), List.mem_filter.2 ⟨List.mem_filter.2 ⟨mem_edges.2 hedge, ?_⟩, ?_⟩, rfl⟩
    · exact decide_eq_true (Nat.le_refl pc)
    · rw [decide_eq_false (Nat.lt_irrefl pc), Bool.not_false]

lemma mem_reachable (h : Path c.f path pc) (hlt : 0 < c.f.code.length) : pc ∈ c.reachable := by
  unfold reachable
  rw [if_pos hlt, Worklist.mem_explore]
  induction h with
  | entry => exact .refl
  | step _ hedge ih => exact .tail ih (mem_next.2 hedge)

/-- What an accepted body is. -/
lemma naturalLoop_ok (h : c.naturalLoop header element = .ok (.ok body)) :
    ∃ inBody : Finset Nat, (∀ pc, pc ∈ body ↔ pc < c.f.code.length ∧ pc ∈ inBody) ∧
      header < c.f.code.length ∧ header ∈ inBody ∧
      (∀ pc ∈ inBody, Relation.ReflTransGen
        (fun p q => c.f.Edge p q ∧ p ∈ inBody ∧ q ∈ inBody) pc header) ∧
      ∀ pc ∈ body, pc ≠ header → c.sideEntry inBody pc = false := by
  unfold naturalLoop at h
  split_ifs at h with hlt hcharged
  · cases Except.ok.inj h
  simp only at h
  split at h
  · cases Except.ok.inj h
  · rename_i inBody hgather
    split_ifs at h with hinner
    · cases Except.ok.inj h
    split at h
    · cases Except.ok.inj h
    · rename_i hfind
      obtain rfl := Except.ok.inj (Except.ok.inj h)
      obtain ⟨hsub, hroot⟩ := Worklist.gather_spec hgather
        (fun a ha => ⟨header, Finset.mem_singleton_self header,
          (List.mem_filter.1 (List.mem_reverse.1 ha)).1⟩)
        (fun a ha => by
          obtain rfl := Finset.mem_singleton.1 ha
          exact .refl)
      refine ⟨inBody, fun pc => ?_, Nat.lt_of_not_le hlt, hsub (Finset.mem_singleton_self header),
        fun pc hpc => ?_, fun pc hpc hne => ?_⟩
      · rw [List.mem_filter, List.mem_range, decide_eq_true_eq]
      · refine Relation.ReflTransGen.mono (fun p q hstep => ?_) _ _ (hroot pc hpc)
        exact ⟨mem_preds.1 (List.mem_filter.1 hstep.1).1, hstep.2⟩
      · have hnone := List.find?_eq_none.1 hfind pc hpc
        rw [Bool.and_eq_true, decide_eq_true_eq] at hnone
        exact Bool.eq_false_iff.2 fun hside => hnone ⟨hne, hside⟩

/-- Only the header is entered from outside the body. -/
lemma enters_header (h : c.naturalLoop header element = .ok (.ok body)) (hpath : Path c.f path pc)
    (hpc : pc ∉ body) (hedge : c.f.Edge pc q) (hq : q ∈ body) : q = header := by
  obtain ⟨inBody, hbody, -, -, -, hside⟩ := naturalLoop_ok h
  by_contra hne
  have hnone := hside q hq hne
  unfold sideEntry at hnone
  rw [Bool.or_eq_false_iff, List.any_eq_false] at hnone
  refine hnone.2 pc (mem_preds.2 hedge) ?_
  have hlt := Function.edge_source_lt hedge
  have hout : pc ∉ inBody := fun hin => hpc ((hbody pc).2 ⟨hlt, hin⟩)
  rw [decide_eq_true (mem_reachable hpath (by omega)), decide_eq_true hout, Bool.true_and]

/-- **Natural loops**: a body instruction of an accepted header leads back to the header inside the
body; a path from the entry to a body instruction passes the header, and an edge into the body from
outside it that execution can take goes to the header. -/
theorem naturalLoop_entered (c : FunctionContext) (header : Nat) (element : Bool) (body : List Nat)
    (h : c.naturalLoop header element = .ok (.ok body)) :
    header ∈ body ∧
      (∀ pc ∈ body, Relation.ReflTransGen (Inside c.f body) pc header) ∧
      (∀ path pc, Path c.f path pc → pc ∈ body → header ∈ path) ∧
      ∀ path pc q, Path c.f path pc → pc ∉ body → c.f.Edge pc q → q ∈ body → q = header := by
  obtain ⟨inBody, hbody, hlt, hheader, hleads, hside⟩ := naturalLoop_ok h
  refine ⟨(hbody header).2 ⟨hlt, hheader⟩, fun pc hpc => ?_, fun path pc hpath hpc => ?_,
    fun path pc q => enters_header h⟩
  · refine Relation.ReflTransGen.mono (fun p q ⟨hedge, hp, hq⟩ => ?_) _ _ (hleads pc ((hbody pc).1 hpc).2)
    exact ⟨hedge, (hbody p).2 ⟨Function.edge_source_lt hedge, hp⟩,
      (hbody q).2 ⟨Function.edge_lt hedge, hq⟩⟩
  · induction hpath with
    | entry =>
      by_contra hne
      rw [List.mem_singleton] at hne
      have hnone := hside 0 hpc (Ne.symm hne)
      unfold sideEntry at hnone
      rw [decide_eq_true rfl, Bool.true_or] at hnone
      cases hnone
    | @step path p q hpath hedge ih =>
      by_cases hp : p ∈ body
      · exact List.mem_append_left _ (ih hp)
      · obtain rfl := enters_header h hpath hp hedge hpc
        exact List.mem_append_right _ (List.mem_singleton_self q)

/-- A loop of one instruction behind the entry. -/
def spin : Function where
  cached := []
  constants := []
  types := []
  ranges := []
  strings := []
  code := [⟨10, true, 1, 0, 0⟩, ⟨11, true, 0, 1, 2⟩, ⟨13, false, 0, 0, 0⟩]
  args := []
  slots := 1
  parameters := 1

def spinContext : FunctionContext := ⟨spin, [[1], [1, 2], []], by decide⟩

lemma spinContext_edges : spinContext.edges = [(1, 0), (1, 1), (2, 1)] :=
  List.mergeSort_of_pairwise (by decide)

lemma spinContext_preds : spinContext.preds 1 = [0, 1] := by
  unfold preds
  rw [spinContext_edges]
  simp [Partition.partitionPoint, Partition.bisect]

/-- The loop is entered at its only instruction. -/
theorem naturalLoop_entered_spin :
    1 ∈ [1] ∧ (∀ pc ∈ [1], Relation.ReflTransGen (Inside spin [1]) pc 1) ∧
      (∀ path pc, Path spin path pc → pc ∈ [1] → 1 ∈ path) ∧
      ∀ path pc q, Path spin path pc → pc ∉ [1] → spin.Edge pc q → q ∈ [1] → q = 1 := by
  have hforward : Worklist.explore spinContext.graph {1} [1] = {1, 2} := by
    simp [Worklist.explore, Worklist.Graph.follow, graph, next, spinContext, Worklist.Marking.push]
    decide
  have hgather : ∀ prev, Worklist.gather maxRegionInstructions prev {1} [1] = some {1} := by
    simp [Worklist.gather]
  refine naturalLoop_entered spinContext 1 false [1] ?_
  unfold naturalLoop
  simp only [hforward, spinContext_preds]
  rw [if_neg (by decide), if_neg (by decide),
    show ((([0, 1].filter (· ∈ ({1, 2} : Finset Nat))).filter (1 ≤ ·)).reverse) = [1] from by decide,
    hgather]
  rfl

end FunctionContext

end Region

end Rnx
