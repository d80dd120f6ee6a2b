import Mathlib.Data.Finset.Card
import Mathlib.Logic.Relation
import Mathlib.Tactic.Common

/-!
# Walks of a graph with a worklist

Two walks that mark the nodes they meet: one marks a node when it is put on the stack and follows
every edge, the other marks a node when it is taken off and gives up once too many are marked.
The first marks what its start reaches, the second leaves nothing marked that does not lead back
to the start among the marked nodes.
-/

namespace Rnx

namespace Worklist

variable {α : Type}

/-- A finite graph: every edge ends at one of its nodes. -/
structure Graph (α : Type) where
  nodes : Finset α
  next : α → List α
  closed : ∀ a, ∀ b ∈ next a, b ∈ nodes

namespace Graph

/-- One edge. -/
def Edge (g : Graph α) (a b : α) : Prop := b ∈ g.next a

end Graph

/-- One step that stays among the marked nodes. -/
def Within (prev : α → List α) (marked : Finset α) (a b : α) : Prop :=
  a ∈ prev b ∧ a ∈ marked ∧ b ∈ marked

lemma Within.mono {prev : α → List α} {marked marked' : Finset α} {a b : α}
    (h : Relation.ReflTransGen (Within prev marked) a b) (hsub : marked ⊆ marked') :
    Relation.ReflTransGen (Within prev marked') a b :=
  Relation.ReflTransGen.mono (fun _ _ hstep => ⟨hstep.1, hsub hstep.2.1, hsub hstep.2.2⟩) _ _ h

variable [DecidableEq α]

/-! ## Marking when pushed -/

/-- The marked nodes, and those among them that are still to be followed. -/
structure Marking (α : Type) where
  marked : Finset α
  stack : List α

namespace Marking

variable {m : Marking α} {nodes : Finset α} {a b : α}

/-- Mark and push a node that is not marked. -/
def push (m : Marking α) (b : α) : Marking α :=
  if b ∈ m.marked then m else ⟨insert b m.marked, b :: m.stack⟩

/-- The nodes that are still to be marked or followed. -/
def work (nodes : Finset α) (m : Marking α) : Nat := (nodes \ m.marked).card + m.stack.length

lemma work_push (hb : b ∈ nodes) : (m.push b).work nodes = m.work nodes := by
  unfold push work
  split_ifs with hmarked
  · rfl
  · have hfresh : b ∈ nodes \ m.marked := Finset.mem_sdiff.2 ⟨hb, hmarked⟩
    have hpos := Finset.card_pos.2 ⟨b, hfresh⟩
    rw [Finset.sdiff_insert, Finset.card_erase_of_mem hfresh, List.length_cons]
    omega

lemma work_foldl_push {bs : List α} (hbs : ∀ b ∈ bs, b ∈ nodes) (m : Marking α) :
    (bs.foldl push m).work nodes = m.work nodes := by
  induction bs generalizing m with
  | nil => rfl
  | cons b bs ih =>
    rw [List.foldl_cons, ih (fun c hc => hbs c (List.mem_cons_of_mem b hc)),
      work_push (hbs b List.mem_cons_self)]

/-- Pushing some nodes marks just these, and whatever it marks is on the stack. -/
lemma foldl_push (bs : List α) (m : Marking α) :
    (∀ x, x ∈ (bs.foldl push m).marked ↔ x ∈ m.marked ∨ x ∈ bs) ∧
      (∀ x ∈ m.stack, x ∈ (bs.foldl push m).stack) ∧
      (∀ x ∈ (bs.foldl push m).stack, x ∈ m.stack ∨ x ∈ (bs.foldl push m).marked) ∧
      ∀ x ∈ (bs.foldl push m).marked, x ∈ m.marked ∨ x ∈ (bs.foldl push m).stack := by
  induction bs generalizing m with
  | nil => exact ⟨fun x => by simp, fun _ h => h, fun _ h => .inl h, fun _ h => .inl h⟩
  | cons b bs ih =>
    obtain ⟨hmarked, hkeep, hnew, hpushed⟩ := ih (m.push b)
    rw [List.foldl_cons]
    have hstep : (∀ x, x ∈ (m.push b).marked ↔ x ∈ m.marked ∨ x = b) ∧
        (∀ x ∈ m.stack, x ∈ (m.push b).stack) ∧
        (∀ x ∈ (m.push b).stack, x ∈ m.stack ∨ x = b) ∧
        (b ∈ m.marked ∨ b ∈ (m.push b).stack) := by
      unfold push
      split_ifs with hb
      · exact ⟨fun x => ⟨.inl, fun h => h.elim id fun h => h ▸ hb⟩, fun _ h => h, fun _ h => .inl h,
          .inl hb⟩
      · exact ⟨fun x => by rw [Finset.mem_insert, or_comm], fun x h => List.mem_cons_of_mem b h,
          fun x h => (List.mem_cons.1 h).symm, .inr List.mem_cons_self⟩
    obtain ⟨hone, hstay, honly, hpush⟩ := hstep
    refine ⟨fun x => ?_, fun x hx => hkeep x (hstay x hx), fun x hx => ?_, fun x hx => ?_⟩
    · rw [hmarked, hone, List.mem_cons, or_assoc]
    · rcases hnew x hx with hx | hx
      · exact (honly x hx).imp_right fun h => (hmarked x).2 (.inl ((hone x).2 (.inr h)))
      · exact .inr hx
    · rcases hpushed x hx with hx | hx
      · rcases (hone x).1 hx with hx | rfl
        · exact .inl hx
        · exact hpush.imp_right (hkeep x)
      · exact .inr hx

end Marking

/-- Follow the edges of one node. -/
def Graph.follow (g : Graph α) (a : α) (m : Marking α) : Marking α :=
  (g.next a).foldl Marking.push m

/-- Follow everything on the stack. -/
def explore (g : Graph α) (marked : Finset α) : List α → Finset α
  | [] => marked
  | a :: stack => explore g (g.follow a ⟨marked, stack⟩).marked (g.follow a ⟨marked, stack⟩).stack
termination_by stack => (Marking.mk marked stack).work g.nodes
decreasing_by
  exact (Marking.work_foldl_push (g.closed a) ⟨marked, stack⟩).trans_lt (Nat.lt_succ_self _)

/-- What is marked in the end: the marks of the start, closed under edges, and nothing that these
do not reach. -/
lemma explore_spec (g : Graph α) {marked : Finset α} {stack : List α}
    (hstack : ∀ a ∈ stack, a ∈ marked)
    (hfollowed : ∀ a ∈ marked, a ∈ stack ∨ ∀ b, g.Edge a b → b ∈ marked) :
    (∀ a ∈ marked, a ∈ explore g marked stack) ∧
      (∀ a ∈ explore g marked stack, ∀ b, g.Edge a b → b ∈ explore g marked stack) ∧
      ∀ b ∈ explore g marked stack, ∃ a ∈ marked, Relation.ReflTransGen g.Edge a b := by
  fun_induction explore g marked stack with
  | case1 marked =>
    refine ⟨fun _ h => h, fun a ha => ?_, fun b hb => ⟨b, hb, .refl⟩⟩
    exact (hfollowed a ha).resolve_left List.not_mem_nil
  | case2 marked a stack ih =>
    obtain ⟨hmarked, hkeep, hnew, hpushed⟩ := Marking.foldl_push (g.next a) ⟨marked, stack⟩
    have ha := hstack a List.mem_cons_self
    obtain ⟨hold, hclosed, hreach⟩ := ih
      (fun x hx => (hnew x hx).elim
        (fun h => (hmarked x).2 (.inl (hstack x (List.mem_cons_of_mem a h)))) id)
      (fun x hx => by
        rcases hpushed x hx with hx | hx
        · rcases hfollowed x hx with hx | hx
          · rcases List.mem_cons.1 hx with rfl | hx
            · exact .inr fun b hb => (hmarked b).2 (.inr hb)
            · exact .inl (hkeep x hx)
          · exact .inr fun b hb => (hmarked b).2 (.inl (hx b hb))
        · exact .inl hx)
    refine ⟨fun x hx => hold x ((hmarked x).2 (.inl hx)), hclosed, fun x hx => ?_⟩
    obtain ⟨y, hy, hyx⟩ := hreach x hx
    rcases (hmarked y).1 hy with hy | hy
    · exact ⟨y, hy, hyx⟩
    · exact ⟨a, ha, .head hy hyx⟩

/-- From one node, the nodes it reaches are marked. -/
lemma mem_explore (g : Graph α) {a b : α} :
    b ∈ explore g {a} [a] ↔ Relation.ReflTransGen g.Edge a b := by
  have hstack : ∀ x ∈ [a], x ∈ ({a} : Finset α) :=
    fun x hx => Finset.mem_singleton.2 (List.mem_singleton.1 hx)
  obtain ⟨hstart, hclosed, hreach⟩ := explore_spec g hstack
    fun x hx => .inl (List.mem_singleton.2 (Finset.mem_singleton.1 hx))
  refine ⟨fun hb => ?_, fun hb => ?_⟩
  · obtain ⟨x, hx, hxb⟩ := hreach b hb
    obtain rfl := Finset.mem_singleton.1 hx
    exact hxb
  · induction hb with
    | refl => exact hstart a (Finset.mem_singleton_self a)
    | tail _ hedge ih => exact hclosed _ ih _ hedge

/-! ## Marking when popped -/

/-- Mark what is on the stack and what leads there, giving up when more than `limit` are marked. -/
def gather (limit : Nat) (prev : α → List α) (marked : Finset α) : List α → Option (Finset α)
  | [] => some marked
  | a :: stack =>
      if a ∈ marked then gather limit prev marked stack
      else if limit < (insert a marked).card then none
      else gather limit prev (insert a marked)
        (((prev a).filter (· ∉ insert a marked)).reverse ++ stack)
termination_by stack => (limit - marked.card, stack.length)
decreasing_by
  · exact Prod.Lex.right _ (Nat.lt_succ_self _)
  · rename_i hmarked hlimit
    rw [Finset.card_insert_of_notMem hmarked] at hlimit
    refine Prod.Lex.left _ _ ?_
    rw [Finset.card_insert_of_notMem hmarked]
    omega

variable {prev : α → List α} {marked marked' : Finset α} {limit : Nat} {stack : List α} {root : α}

/-- Everything that is marked leads to the root among what is marked. -/
lemma gather_spec (h : gather limit prev marked stack = some marked')
    (hstack : ∀ a ∈ stack, ∃ b ∈ marked, a ∈ prev b)
    (hroot : ∀ a ∈ marked, Relation.ReflTransGen (Within prev marked) a root) :
    marked ⊆ marked' ∧ ∀ a ∈ marked', Relation.ReflTransGen (Within prev marked') a root := by
  fun_induction gather limit prev marked stack with
  | case1 marked =>
    obtain rfl := Option.some.inj h
    exact ⟨Finset.Subset.refl _, hroot⟩
  | case2 marked a stack hmarked ih =>
    exact ih h (fun x hx => hstack x (List.mem_cons_of_mem a hx)) hroot
  | case3 marked a stack hmarked hlimit => cases h
  | case4 marked a stack hmarked hlimit ih =>
    have hsub := Finset.subset_insert a marked
    obtain ⟨b, hb, hab⟩ := hstack a List.mem_cons_self
    have hstep : Within prev (insert a marked) a b :=
      ⟨hab, Finset.mem_insert_self a marked, hsub hb⟩
    obtain ⟨hsub', hall⟩ := ih h
      (fun x hx => by
        rcases List.mem_append.1 hx with hx | hx
        · exact ⟨a, Finset.mem_insert_self a marked, (List.mem_filter.1 (List.mem_reverse.1 hx)).1⟩
        · obtain ⟨y, hy, hxy⟩ := hstack x (List.mem_cons_of_mem a hx)
          exact ⟨y, hsub hy, hxy⟩)
      (fun x hx => by
        rcases Finset.mem_insert.1 hx with rfl | hx
        · exact .head hstep (Within.mono (hroot b hb) hsub)
        · exact Within.mono (hroot x hx) hsub)
    exact ⟨hsub.trans hsub', hall⟩

/-- What was marked stays marked, and what was on the stack is marked in the end. -/
lemma gather_keeps (h : gather limit prev marked stack = some marked') :
    marked ⊆ marked' ∧ ∀ a ∈ stack, a ∈ marked' := by
  fun_induction gather limit prev marked stack with
  | case1 marked =>
    obtain rfl := Option.some.inj h
    exact ⟨Finset.Subset.refl _, fun a ha => absurd ha List.not_mem_nil⟩
  | case2 marked a stack hmarked ih =>
    obtain ⟨hsub, hstack⟩ := ih h
    exact ⟨hsub, List.forall_mem_cons.2 ⟨hsub hmarked, hstack⟩⟩
  | case3 marked a stack hmarked hlimit => cases h
  | case4 marked a stack hmarked hlimit ih =>
    obtain ⟨hsub, hstack⟩ := ih h
    refine ⟨(Finset.subset_insert a marked).trans hsub, List.forall_mem_cons.2 ⟨?_, fun x hx => ?_⟩⟩
    · exact hsub (Finset.mem_insert_self a marked)
    · exact hstack x (List.mem_append_right _ hx)

end Worklist

end Rnx
