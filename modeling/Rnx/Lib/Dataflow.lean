import Mathlib.Algebra.BigOperators.Group.Finset.Basic
import Mathlib.Logic.Function.Basic
import Mathlib.Logic.Relation
import Rnx.Lib.Outcome

/-!
# Forward dataflow by a worklist

A solver of dataflow equations: each node has an abstract state, a node taken from the worklist
sends what its transfer makes of the state to its successors, and a successor whose state grows is
put back on the list.  After a bounded number of transfers the solver gives up.

Abstract states describe concrete ones.  Nothing is asked of the join but that what it joins is
still described, so the equations are read as inclusions of what is described: a node that is not on
the list sends nothing its successors do not describe already (`Closed`).  A solution therefore
describes every concrete state that a run reaches (`Solution.run`).  Where a join that changes a
state raises its rank, the number of transfers is bounded by what the ranks may still rise.
-/

namespace Rnx

namespace Dataflow

variable {α L ε σ : Type}

/-- The equations: the successors of a node, what a node makes of its state, and how states are
joined. -/
structure Flow (α L ε : Type) where
  next : α → Except ε (List α)
  transfer : α → L → Except ε L
  join : L → L → L

/-- The states found so far, the nodes that were reached, and those still to be followed. -/
structure Solver (α L : Type) where
  state : α → L
  reached : Finset α
  work : List α

variable [DecidableEq α] [DecidableEq L]

namespace Flow

/-- Join what flows out of a node into one of its successors. -/
def meet (p : Flow α L ε) (out : L) (s : Solver α L) (q : α) : Solver α L where
  state := Function.update s.state q (p.join (s.state q) out)
  reached := insert q s.reached
  work :=
    if (q ∉ s.reached ∨ p.join (s.state q) out ≠ s.state q) ∧ q ∉ s.work then q :: s.work
    else s.work

/-- Follow what is on the list, for as many transfers as are left. -/
def solve (p : Flow α L ε) (left : Nat) (s : Solver α L) : Except ε (Option (α → L)) :=
  match s.work, left with
  | [], _ => .ok (some s.state)
  | _ :: _, 0 => .ok none
  | a :: work, left + 1 => do
      let out ← p.transfer a (s.state a)
      let targets ← p.next a
      solve p left (targets.foldl (p.meet out) { s with work := work })

/-- The solution from one node, whose state is given along with all others. -/
def solution (p : Flow α L ε) (limit : Nat) (start : α) (state : α → L) :
    Except ε (Option (α → L)) :=
  p.solve limit ⟨state, {start}, [start]⟩

end Flow

/-! ## What states describe -/

/-- Abstract states and what they describe: a join describes what either side does. -/
structure Describes (p : Flow α L ε) (describes : L → σ → Prop) : Prop where
  left : ∀ a b x, describes a x → describes (p.join a b) x
  right : ∀ a b x, describes b x → describes (p.join a b) x

variable {p : Flow α L ε} {describes : L → σ → Prop} {s : Solver α L} {start a b q : α} {out : L}
  {targets : List α} {left : Nat} {state : α → L}

/-- What flows out of a node is described at its successors, which were reached. -/
def Closed (p : Flow α L ε) (describes : L → σ → Prop) (s : Solver α L) (a : α) : Prop :=
  ∃ out targets, p.transfer a (s.state a) = .ok out ∧ p.next a = .ok targets ∧
    ∀ q ∈ targets, q ∈ s.reached ∧ ∀ x, describes out x → describes (s.state q) x

/-- What one successor, or all of them, leave of a solver: the states describe more, and the nodes
that are not on the list have the states they had. -/
structure Grows (describes : L → σ → Prop) (s s' : Solver α L) : Prop where
  state : ∀ a x, describes (s.state a) x → describes (s'.state a) x
  reached : s.reached ⊆ s'.reached
  work : ∀ a ∈ s.work, a ∈ s'.work
  same : ∀ a ∈ s'.reached, a ∉ s'.work → a ∈ s.reached ∧ s'.state a = s.state a

omit [DecidableEq α] [DecidableEq L] in
lemma Grows.refl (describes : L → σ → Prop) (s : Solver α L) : Grows describes s s :=
  ⟨fun _ _ h => h, Finset.Subset.refl _, fun _ h => h, fun _ h _ => ⟨h, rfl⟩⟩

omit [DecidableEq α] [DecidableEq L] in
lemma Grows.trans {s' s'' : Solver α L} (h : Grows describes s s') (h' : Grows describes s' s'') :
    Grows describes s s'' where
  state a x hx := h'.state a x (h.state a x hx)
  reached := h.reached.trans h'.reached
  work a ha := h'.work a (h.work a ha)
  same a ha hwork := by
    obtain ⟨hold, heq⟩ := h'.same a ha hwork
    obtain ⟨hfirst, heq'⟩ := h.same a hold fun hin => hwork (h'.work a hin)
    exact ⟨hfirst, heq.trans heq'⟩

lemma solve_nil (hw : s.work = []) : p.solve left s = .ok (some s.state) := by
  rw [Flow.solve.eq_def, hw]

lemma solve_zero {work : List α} (hw : s.work = a :: work) : p.solve 0 s = .ok none := by
  rw [Flow.solve.eq_def, hw]

lemma solve_cons {work : List α} (hw : s.work = a :: work) :
    p.solve (left + 1) s = (do
      let out ← p.transfer a (s.state a)
      let targets ← p.next a
      p.solve left (targets.foldl (p.meet out) { s with work := work })) := by
  rw [Flow.solve.eq_def, hw]

@[simp] lemma meet_state_self (out : L) (s : Solver α L) (q : α) :
    (p.meet out s q).state q = p.join (s.state q) out := Function.update_self ..

lemma meet_state_of_ne (out : L) (s : Solver α L) (h : a ≠ q) :
    (p.meet out s q).state a = s.state a := Function.update_of_ne h ..

lemma meet_grows (hp : Describes p describes) (out : L) (s : Solver α L) (q : α) :
    Grows describes s (p.meet out s q) ∧ q ∈ (p.meet out s q).reached ∧
      ∀ x, describes out x → describes ((p.meet out s q).state q) x := by
  refine ⟨⟨fun a x hx => ?_, Finset.subset_insert q s.reached, fun a ha => ?_, fun a ha hwork => ?_⟩,
    Finset.mem_insert_self q s.reached, fun x hx => ?_⟩
  · by_cases haq : a = q
    · subst haq
      rw [meet_state_self]
      exact hp.left _ _ x hx
    · rw [meet_state_of_ne out s haq]
      exact hx
  · unfold Flow.meet
    split_ifs
    · exact List.mem_cons_of_mem q ha
    · exact ha
  · by_cases haq : a = q
    · subst haq
      -- A node whose state grew, or that was not reached before, is on the list now.
      unfold Flow.meet at hwork
      split_ifs at hwork with hchanged
      · exact absurd List.mem_cons_self hwork
      · have hsame : ¬(a ∉ s.reached ∨ p.join (s.state a) out ≠ s.state a) :=
          fun h => hchanged ⟨h, hwork⟩
        obtain ⟨hreached, hjoin⟩ := not_or.1 hsame
        rw [meet_state_self]
        exact ⟨not_not.1 hreached, not_not.1 hjoin⟩
    · rw [meet_state_of_ne out s haq]
      exact ⟨Finset.mem_of_mem_insert_of_ne ha haq, rfl⟩
  · rw [meet_state_self]
    exact hp.right _ _ x hx

lemma foldl_meet (hp : Describes p describes) (out : L) (targets : List α) (s : Solver α L) :
    Grows describes s (targets.foldl (p.meet out) s) ∧
      ∀ q ∈ targets, q ∈ (targets.foldl (p.meet out) s).reached ∧
        ∀ x, describes out x → describes ((targets.foldl (p.meet out) s).state q) x := by
  induction targets generalizing s with
  | nil => exact ⟨.refl describes s, List.forall_mem_nil _⟩
  | cons q targets ih =>
    obtain ⟨hone, hq, hout⟩ := meet_grows hp out s q
    obtain ⟨hrest, hall⟩ := ih (p.meet out s q)
    rw [List.foldl_cons]
    refine ⟨hone.trans hrest, List.forall_mem_cons.2 ⟨⟨hrest.reached hq, fun x hx => ?_⟩, hall⟩⟩
    exact hrest.state q x (hout x hx)

/-- What the solver keeps: the start was reached with the state it was given, and a node that was
reached is on the list or closed. -/
structure Inv (p : Flow α L ε) (describes : L → σ → Prop) (start : α) (init : L) (s : Solver α L) :
    Prop where
  entered : start ∈ s.reached
  init : ∀ x, describes init x → describes (s.state start) x
  closed : ∀ a ∈ s.reached, a ∈ s.work ∨ Closed p describes s a

/-- The state of a node was followed: it is closed, and so is every node that was. -/
lemma Inv.follow {init : L} {work : List α} (h : Inv p describes start init s)
    (hp : Describes p describes) (hwork : s.work = a :: work)
    (hout : p.transfer a (s.state a) = .ok out) (htargets : p.next a = .ok targets) :
    Inv p describes start init (targets.foldl (p.meet out) { s with work := work }) := by
  obtain ⟨hgrows, hall⟩ := foldl_meet hp out targets { s with work := work }
  refine ⟨hgrows.reached h.entered, fun x hx => hgrows.state start x (h.init x hx),
    fun b hb => or_iff_not_imp_left.2 fun hnot => ?_⟩
  obtain ⟨hreached, hsame⟩ := hgrows.same b hb hnot
  by_cases hba : b = a
  · subst hba
    exact ⟨out, targets, by rw [hsame, hout], htargets, hall⟩
  · have hclosed : Closed p describes s b := by
      refine (h.closed b hreached).resolve_left fun hin => ?_
      rw [hwork] at hin
      exact hnot (hgrows.work b ((List.mem_cons.1 hin).resolve_left hba))
    obtain ⟨out', targets', hout', htargets', hsent⟩ := hclosed
    refine ⟨out', targets', by rw [hsame, hout'], htargets', fun q hq => ?_⟩
    obtain ⟨hq', hx⟩ := hsent q hq
    exact ⟨hgrows.reached hq', fun x hx' => hgrows.state q x (hx x hx')⟩

/-- A solution: the states the solver ends with, whose reached nodes are all closed. -/
structure Solution (p : Flow α L ε) (describes : L → σ → Prop) (start : α) (init : L)
    (state : α → L) : Prop where
  closed : ∃ reached, Inv p describes start init ⟨state, reached, []⟩

lemma solve_solution {init : L} (hp : Describes p describes) (h : Inv p describes start init s)
    (hs : p.solve left s = .ok (some state)) : Solution p describes start init state := by
  have hdone : ∀ s : Solver α L, Inv p describes start init s → s.work = [] →
      Solution p describes start init s.state := by
    intro s h hw
    exact ⟨s.reached, h.entered, h.init, by rw [← hw]; exact h.closed⟩
  induction left generalizing s with
  | zero =>
    rcases hw : s.work with _ | ⟨a, work⟩
    · rw [solve_nil hw] at hs
      obtain rfl := Option.some.inj (Except.ok.inj hs)
      exact hdone s h hw
    · rw [solve_zero hw] at hs
      cases Except.ok.inj hs
  | succ left ih =>
    rcases hw : s.work with _ | ⟨a, work⟩
    · rw [solve_nil hw] at hs
      obtain rfl := Option.some.inj (Except.ok.inj hs)
      exact hdone s h hw
    · rw [solve_cons hw] at hs
      obtain ⟨out, hout, hs⟩ := Except.bind_eq_ok.1 hs
      obtain ⟨targets, htargets, hs⟩ := Except.bind_eq_ok.1 hs
      exact ih (h.follow hp hw hout htargets) hs

/-- What the solver returns is a solution. -/
lemma solution_spec {limit : Nat} {state₀ : α → L} (hp : Describes p describes)
    (hs : p.solution limit start state₀ = .ok (some state)) :
    Solution p describes start (state₀ start) state := by
  refine solve_solution hp ⟨Finset.mem_singleton_self start, fun _ h => h, fun a ha => ?_⟩ hs
  exact .inl (List.mem_singleton.2 (Finset.mem_singleton.1 ha))

/-- What is put on the list are targets. -/
lemma foldl_meet_work (nodes : Finset α) (hs : ∀ a ∈ s.work, a ∈ nodes)
    (htargets : ∀ q ∈ targets, q ∈ nodes) : ∀ a ∈ (targets.foldl (p.meet out) s).work, a ∈ nodes := by
  induction targets generalizing s with
  | nil => exact hs
  | cons q targets ih =>
    rw [List.foldl_cons]
    refine ih (fun a ha => ?_) fun q' hq' => htargets q' (List.mem_cons_of_mem q hq')
    unfold Flow.meet at ha
    split_ifs at ha
    · rcases List.mem_cons.1 ha with rfl | ha
      · exact htargets a List.mem_cons_self
      · exact hs a ha
    · exact hs a ha

/-- The solver returns when the transfers and the successors of the nodes do. -/
lemma solve_returns (nodes : Finset α) (hs : ∀ a ∈ s.work, a ∈ nodes)
    (hnext : ∀ a ∈ nodes, ∃ targets, p.next a = .ok targets ∧ ∀ q ∈ targets, q ∈ nodes)
    (htransfer : ∀ a ∈ nodes, ∀ l, ∃ out, p.transfer a l = .ok out) :
    ∃ r, p.solve left s = .ok r := by
  induction left generalizing s with
  | zero =>
    rcases hw : s.work with _ | ⟨a, work⟩
    · exact ⟨some s.state, solve_nil hw⟩
    · exact ⟨none, solve_zero hw⟩
  | succ left ih =>
    rcases hw : s.work with _ | ⟨a, work⟩
    · exact ⟨some s.state, solve_nil hw⟩
    · rw [hw] at hs
      have ha := hs a List.mem_cons_self
      obtain ⟨out, hout⟩ := htransfer a ha (s.state a)
      obtain ⟨targets, htargets, hall⟩ := hnext a ha
      obtain ⟨r, hr⟩ := @ih (targets.foldl (p.meet out) { s with work := work })
        (foldl_meet_work nodes (fun b hb => hs b (List.mem_cons_of_mem a hb)) hall)
      refine ⟨r, ?_⟩
      rw [solve_cons hw]
      exact Except.bind_eq_ok.2 ⟨out, hout, Except.bind_eq_ok.2 ⟨targets, htargets, hr⟩⟩

/-! ## Ending -/

/-- A rank that a join never lowers, and raises where it changes the state. -/
structure Ranked (p : Flow α L ε) (rank : L → Nat) (top : Nat) : Prop where
  le : ∀ l, rank l ≤ top
  keeps : ∀ a b, rank a ≤ rank (p.join a b)
  raises : ∀ a b, p.join a b ≠ a → rank a < rank (p.join a b)

/-- How often a node may still be put on the list. -/
def slack (rank : L → Nat) (top : Nat) (s : Solver α L) (a : α) : Nat :=
  top - rank (s.state a) + if a ∈ s.reached then 0 else 1

/-- How many transfers are still to come. -/
def pending (rank : L → Nat) (top : Nat) (nodes : Finset α) (s : Solver α L) : Nat :=
  nodes.sum (slack rank top s) + s.work.length

variable {rank : L → Nat} {top : Nat} {nodes : Finset α}

/-- What a successor may lose is what the list may gain. -/
lemma pending_meet (h : Ranked p rank top) (hq : q ∈ nodes) :
    pending rank top nodes (p.meet out s q) ≤ pending rank top nodes s := by
  have hother : ∀ a ∈ nodes.erase q, slack rank top (p.meet out s q) a = slack rank top s a := by
    intro a ha
    have hne := Finset.ne_of_mem_erase ha
    unfold slack
    rw [meet_state_of_ne out s hne]
    simp [Flow.meet, hne]
  unfold pending
  rw [← Finset.add_sum_erase nodes _ hq, ← Finset.add_sum_erase nodes (slack rank top s) hq,
    Finset.sum_congr rfl hother]
  have hkeeps := h.keeps (s.state q) out
  have hself : slack rank top (p.meet out s q) q = top - rank (p.join (s.state q) out) := by
    unfold slack
    rw [meet_state_self]
    simp [Flow.meet]
  rw [hself]
  unfold slack
  by_cases hchanged : (q ∉ s.reached ∨ p.join (s.state q) out ≠ s.state q) ∧ q ∉ s.work
  · have hlength : (p.meet out s q).work.length = s.work.length + 1 := by
      unfold Flow.meet
      rw [if_pos hchanged]
      exact List.length_cons
    rw [hlength]
    have hle := h.le (p.join (s.state q) out)
    rcases hchanged.1 with hnew | hraised
    · rw [if_neg hnew]
      omega
    · have hlt := h.raises (s.state q) out hraised
      omega
  · have hlength : (p.meet out s q).work.length = s.work.length := by
      unfold Flow.meet
      rw [if_neg hchanged]
    rw [hlength]
    omega

lemma pending_foldl (h : Ranked p rank top) (htargets : ∀ q ∈ targets, q ∈ nodes) :
    pending rank top nodes (targets.foldl (p.meet out) s) ≤ pending rank top nodes s := by
  induction targets generalizing s with
  | nil => exact Nat.le_refl _
  | cons q targets ih =>
    rw [List.foldl_cons]
    exact (ih fun q' hq' => htargets q' (List.mem_cons_of_mem q hq')).trans
      (pending_meet h (htargets q List.mem_cons_self))

/-- With as many transfers as may come, the solver ends with a solution. -/
lemma solve_ends (h : Ranked p rank top) (hs : ∀ a ∈ s.work, a ∈ nodes)
    (hnext : ∀ a ∈ nodes, ∃ targets, p.next a = .ok targets ∧ ∀ q ∈ targets, q ∈ nodes)
    (htransfer : ∀ a ∈ nodes, ∀ l, ∃ out, p.transfer a l = .ok out)
    (hleft : pending rank top nodes s ≤ left) : ∃ state, p.solve left s = .ok (some state) := by
  induction left generalizing s with
  | zero =>
    rcases hw : s.work with _ | ⟨a, work⟩
    · exact ⟨s.state, solve_nil hw⟩
    · unfold pending at hleft
      rw [hw, List.length_cons] at hleft
      omega
  | succ left ih =>
    rcases hw : s.work with _ | ⟨a, work⟩
    · exact ⟨s.state, solve_nil hw⟩
    · rw [hw] at hs
      have ha := hs a List.mem_cons_self
      obtain ⟨out, hout⟩ := htransfer a ha (s.state a)
      obtain ⟨targets, htargets, hall⟩ := hnext a ha
      have hpopped : pending rank top nodes { s with work := work } + 1 = pending rank top nodes s := by
        unfold pending
        rw [hw, List.length_cons, ← Nat.add_assoc]
        rfl
      have hrest : pending rank top nodes (targets.foldl (p.meet out) { s with work := work }) ≤
          pending rank top nodes { s with work := work } := pending_foldl h hall
      obtain ⟨state, hstate⟩ := @ih (targets.foldl (p.meet out) { s with work := work })
        (foldl_meet_work nodes (fun b hb => hs b (List.mem_cons_of_mem a hb)) hall) (by omega)
      refine ⟨state, ?_⟩
      rw [solve_cons hw]
      exact Except.bind_eq_ok.2 ⟨out, hout, Except.bind_eq_ok.2 ⟨targets, htargets, hstate⟩⟩

/-! ## Runs -/

/-- Steps between nodes with concrete states that the equations account for. -/
def Accounts (p : Flow α L ε) (describes : L → σ → Prop) (step : α × σ → α × σ → Prop) : Prop :=
  ∀ a x b y l out targets, step (a, x) (b, y) → describes l x → p.transfer a l = .ok out →
    p.next a = .ok targets → b ∈ targets ∧ describes out y

omit [DecidableEq α] [DecidableEq L] in
/-- A solution describes every state that a run reaches. -/
theorem Solution.run {init : L} {step : α × σ → α × σ → Prop} {x : σ} {y : α × σ}
    (h : Solution p describes start init state) (hstep : Accounts p describes step)
    (hx : describes init x) (hrun : Relation.ReflTransGen step (start, x) y) :
    describes (state y.1) y.2 := by
  obtain ⟨reached, hinv⟩ := h.closed
  have hall : y.1 ∈ reached ∧ describes (state y.1) y.2 := by
    induction hrun with
    | refl => exact ⟨hinv.entered, hinv.init x hx⟩
    | tail _ hone ih =>
      obtain ⟨hreached, hdescribed⟩ := ih
      obtain ⟨out, targets, hout, htargets, hsent⟩ :=
        (hinv.closed _ hreached).resolve_left List.not_mem_nil
      obtain ⟨hmem, hy⟩ := hstep _ _ _ _ _ out targets hone hdescribed hout htargets
      exact ⟨(hsent _ hmem).1, (hsent _ hmem).2 _ hy⟩
  exact hall.2

end Dataflow

end Rnx
