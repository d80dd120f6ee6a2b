import Rnx.Jupyter.Delivery

/-!
# What every run of an endpoint promises

The history of a run says which peers the publication in progress has visited and what became of
each; the invariant of `Delivery` and this record extend over every action.
-/

namespace Rnx

namespace Jupyter.Transport

variable {kind : Kind} {s t u : Endpoint} {e : Event} {out : Report} {p q : Peer} {i j n : Nat}
  {P : Publishing} {stage : PublishStage} {l l' : List (Event × Report)}

/-! ## Every action keeps the invariant -/

lemma next_cases (hstep : next kind s e = some (t, out)) :
    (∃ i p, e.peer = some i ∧ s.peers[i]? = some p ∧ onPeer kind s i p e = some (t, out)) ∨
      e.peer = none ∧ onEndpoint kind s e = some (t, out) := by
  unfold next at hstep
  split at hstep
  · next i hi =>
    obtain ⟨p, hp, hact⟩ := Option.bind_eq_some_iff.1 hstep
    exact .inl ⟨i, p, hi, hp, hact⟩
  · next hnone => exact .inr ⟨hnone, hstep⟩

/-- What an action on the endpoint leaves: one more peer at most, unless it is of the publication in
progress. -/
lemma onEndpoint_cases (hstep : onEndpoint kind s e = some (t, out)) :
    (e = .publishStep ∧ publishStep s = some (t, out)) ∨
      (∃ property, e = .connect property ∧ s.publishing = none ∧
        (t, out) = connect kind property s) ∨
      (∃ k order, e = .lock k order ∧ lock k order s = some t ∧ out = .quiet) ∨
      (e ≠ .publishStep ∧ (∀ k order, e ≠ .lock k order) ∧ t.peers = s.peers ∧
        t.table = s.table ∧ s.next ≤ t.next ∧ t.publishing = s.publishing) := by
  cases e with
  | connect property =>
      simp only [onEndpoint] at hstep
      split_ifs at hstep with hpub
      exact .inr (.inl ⟨property, rfl, hpub, (Option.some.inj hstep).symm⟩)
  | generation =>
      simp only [onEndpoint] at hstep
      split_ifs at hstep
      obtain ⟨rfl, rfl⟩ := Prod.ext_iff.1 (Option.some.inj hstep)
      exact .inr (.inr (.inr ⟨(fun h => by cases h), (fun k order h => by cases h), rfl, rfl,
        Nat.le_succ _, rfl⟩))
  | publish parts =>
      simp only [onEndpoint] at hstep
      split_ifs at hstep
      have hrun := Option.some.inj hstep
      refine .inr (.inr (.inr ⟨(fun h => by cases h), (fun k order h => by cases h), ?_⟩))
      unfold publish at hrun
      split at hrun
      · obtain ⟨rfl, rfl⟩ := Prod.ext_iff.1 hrun
        exact ⟨rfl, rfl, Nat.le_refl _, rfl⟩
      · split_ifs at hrun
        · obtain ⟨rfl, rfl⟩ := Prod.ext_iff.1 hrun
          exact ⟨rfl, rfl, Nat.le_refl _, rfl⟩
        · split at hrun
          · obtain ⟨rfl, rfl⟩ := Prod.ext_iff.1 hrun
            exact ⟨rfl, rfl, Nat.le_refl _, rfl⟩
          · obtain ⟨rfl, rfl⟩ := Prod.ext_iff.1 hrun
            exact ⟨rfl, rfl, Nat.le_refl _, rfl⟩
  | lock k order =>
      obtain ⟨u, hlock, hrun⟩ := Option.map_eq_some_iff.1 hstep
      obtain ⟨rfl, rfl⟩ := Prod.ext_iff.1 hrun
      exact .inr (.inr (.inl ⟨k, order, rfl, hlock, rfl⟩))
  | publishStep => exact .inl ⟨rfl, hstep⟩
  | shutdown =>
      obtain ⟨rfl, rfl⟩ := Prod.ext_iff.1 (Option.some.inj hstep)
      exact .inr (.inr (.inr ⟨(fun h => by cases h), (fun k order h => by cases h), rfl, rfl,
        Nat.le_refl _, rfl⟩))
  | _ => cases hstep

lemma Reserved.congr (h : Reserved s) (hpeers : t.peers = s.peers)
    (hpub : t.publishing = s.publishing) : Reserved t := by
  unfold Reserved at h ⊢
  rw [hpeers, hpub]
  exact h

/-- Every action keeps the invariant. -/
lemma next_inv (h : Inv kind s) (hstep : next kind s e = some (t, out)) : Inv kind t := by
  obtain ⟨i, p, -, hp, hact⟩ | ⟨-, hact⟩ := next_cases hstep
  · obtain ⟨hsame, hacts | ⟨-, hremoves⟩⟩ := onPeer_acts hp hact
    · exact h.acts hp hsame hacts
    · exact h.removes hp hsame hremoves
  · obtain ⟨-, hpublish⟩ | ⟨property, -, hpub, hrun⟩ | ⟨k, order, -, hlock, -⟩ |
      ⟨-, -, hpeers, htable, hnext, hpub⟩ := onEndpoint_cases hact
    · exact h.publishStep hpublish
    · obtain ⟨rfl, -⟩ := Prod.ext_iff.1 hrun
      exact h.connect hpub property
    · exact h.lock hlock
    · exact h.congr hpeers htable hnext (h.reserved.congr hpeers hpub)

lemma run_inv (h : Inv kind s) (hrun : (machine kind).Run s l t) : Inv kind t :=
  hrun.invariant (fun _ _ _ _ h hstep => next_inv h hstep) h

/-! ## One peer over one action -/

/-- What an action does to the peer at `j`. -/
inductive Touches (s : Endpoint) (e : Event) (j : Nat) (p q : Peer) (out : Report) : Prop
  | apart (other : e.peer ≠ some j) (same : q = p)
  | act (own : e.peer = some j) (keeps : Keeps p q) (queue : Starts p q out ∨ Queues p q j out)
  | leave (k : Nat) (own : e = .remove k) (same : q = { p with removed := true })
  | publish (P : Publishing) (publishing : s.publishing = some P) (own : e = .publishStep)
      (kind : Kind) (effect : VisitEffect kind p q P.wire j out)

lemma connect_peers (property : Option Bytes) (hp : s.peers[j]? = some p) :
    (connect kind property s).1.peers[j]? = some p := by
  have hkeep : ∀ r : Peer, (s.peers ++ [r])[j]? = some p :=
    fun r => by rw [List.getElem?_append_left (List.getElem?_eq_some_iff.1 hp).1, hp]
  unfold connect
  split
  · exact hp
  · split_ifs
    · split
      · split_ifs
        · exact hp
        · exact hkeep _
      · split
        · exact hkeep _
        · exact hp
    · exact hp

/-- Every action on every peer. -/
lemma next_touches (h : Inv kind s) (hstep : next kind s e = some (t, out))
    (hp : s.peers[j]? = some p) : ∃ q, t.peers[j]? = some q ∧ Touches s e j p q out := by
  obtain ⟨i, r, hi, hr, hact⟩ | ⟨hnone, hact⟩ := next_cases hstep
  · obtain ⟨-, ⟨⟨q, hpeers, heffect⟩, -⟩ | ⟨⟨k, hk⟩, hremoves⟩⟩ := onPeer_acts hr hact
    · rw [hpeers]
      by_cases hj : j = i
      · subst hj
        rw [hp] at hr
        obtain rfl := Option.some.inj hr
        exact ⟨q, getElem?_set_self' hp, .act hi heffect.keeps heffect.queue⟩
      · refine ⟨p, by rw [List.getElem?_set_ne (Ne.symm hj), hp], .apart ?_ rfl⟩
        rw [hi]
        exact fun heq => hj (Option.some.inj heq).symm
    · rw [hremoves.peers]
      by_cases hj : j = i
      · subst hj
        rw [hp] at hr
        obtain rfl := Option.some.inj hr
        exact ⟨_, getElem?_set_self' hp, .leave k hk rfl⟩
      · refine ⟨p, by rw [List.getElem?_set_ne (Ne.symm hj), hp], .apart ?_ rfl⟩
        rw [hi]
        exact fun heq => hj (Option.some.inj heq).symm
  · have hother : e.peer ≠ some j := by
      rw [hnone]
      exact fun heq => by cases heq
    obtain ⟨rfl, hpublish⟩ | ⟨property, -, -, hrun⟩ | ⟨k, order, -, hlock, -⟩ | ⟨-, -, hpeers, -⟩ :=
      onEndpoint_cases hact
    · obtain ⟨P, hP, ⟨i, r, q, stage, hr, hv, hpeers, -⟩ | ⟨stage, -, hpeers, -⟩⟩ :=
        publishStep_cases hpublish
      · rw [hpeers]
        by_cases hj : j = i
        · subst hj
          rw [hp] at hr
          obtain rfl := Option.some.inj hr
          have hsound := h.publishing hP
          exact ⟨q, getElem?_set_self' hp, .publish P hP rfl kind
            (hv.effect (hsound.holds j p hp) hsound.nodup)⟩
        · exact ⟨p, by rw [List.getElem?_set_ne (Ne.symm hj), hp], .apart hother rfl⟩
      · exact ⟨p, by rw [hpeers, hp], .apart hother rfl⟩
    · obtain ⟨rfl, -⟩ := Prod.ext_iff.1 hrun
      exact ⟨p, connect_peers property hp, .apart hother rfl⟩
    · obtain ⟨-, -, wire, topic, -, rfl⟩ := lock_cases hlock
      exact ⟨p, hp, .apart hother rfl⟩
    · exact ⟨p, by rw [hpeers, hp], .apart hother rfl⟩

/-- A peer keeps its identity and generation, and once stopped stays so. -/
lemma Touches.keeps (h : Touches s e j p q out) :
    q.id = p.id ∧ q.generation = p.generation ∧ (p.stop = true → q.stop = true) := by
  cases h with
  | apart other same =>
      subst same
      exact ⟨rfl, rfl, id⟩
  | act own keeps queue => exact ⟨keeps.id, keeps.generation, keeps.stop⟩
  | leave k own same =>
      subst same
      exact ⟨rfl, rfl, id⟩
  | publish P publishing own kind effect =>
      exact ⟨effect.keeps.id, effect.keeps.generation, effect.keeps.stop⟩

/-! ## Replies of a stopped connection -/

/-- A sender of the peer at `i` enters its channel. -/
def replies (i : Nat) (x : Event × Report) : Bool :=
  match x.1 with
  | .advance k _ => k = i ∧ x.2 = .queued i
  | _ => false

lemma replies_iff : replies i (e, out) = true ↔ (∃ j, e = .advance i j) ∧ out = .queued i := by
  unfold replies
  cases e with
  | advance k j =>
      simp only [decide_eq_true_eq, Event.advance.injEq]
      constructor
      · rintro ⟨rfl, hout⟩
        exact ⟨⟨j, rfl, rfl⟩, hout⟩
      · rintro ⟨⟨j, rfl, -⟩, hout⟩
        exact ⟨rfl, hout⟩
  | _ => simp

lemma replies_of_ne (h : ¬ ((∃ j, e = .advance i j) ∧ out = .queued i)) :
    replies i (e, out) = false := by
  rw [← replies_iff] at h
  simpa using h

/-- On a stopped peer the senders that may still enter the channel only become fewer, by one for
each that does. -/
lemma Touches.stopped (h : Touches s e i p q out) (hstop : p.stop = true) :
    (if replies i (e, out) = true then 1 else 0) + q.entering ≤ p.entering := by
  cases h with
  | apart other same =>
      subst same
      have hno : replies i (e, out) = false := by
        apply replies_of_ne
        rintro ⟨⟨j, rfl⟩, -⟩
        exact other rfl
      simp [hno]
  | act own keeps queue =>
      obtain ⟨v, rfl, rfl, -, -, hrefused⟩ | ⟨-, hle, hout⟩ | ⟨v, -, -, -, rfl, -, hone⟩ := queue
      · obtain ⟨error, hv⟩ := hrefused hstop
        have hno : replies i (e, .quiet) = false := replies_of_ne fun h => by cases h.2
        simp [hno, Peer.entering, Send.entering, hv]
      · have hno : replies i (e, out) = false := replies_of_ne fun h => hout h.2
        simpa [hno] using hle
      · split_ifs <;> omega
  | leave k own same =>
      subst own same
      simp [replies, Peer.entering]
  | publish P publishing own kind effect =>
      subst own
      simp [replies, Peer.entering, effect.sends]

/-- Once a connection has stopped, no more replies enter its channel than were already past the
check of the stop flag. -/
lemma run_stopped (h : Inv kind s) (hrun : (machine kind).Run s l t) (hp : s.peers[i]? = some p)
    (hstop : p.stop = true) : ∃ q, t.peers[i]? = some q ∧ q.stop = true ∧
      l.countP (replies i) + q.entering ≤ p.entering := by
  induction hrun generalizing p with
  | nil s => exact ⟨p, hp, hstop, by simp⟩
  | cons step _ ih =>
      obtain ⟨r, hr, htouch⟩ := next_touches h step hp
      obtain ⟨q, hq, hqstop, hle⟩ := ih (next_inv h step) hr (htouch.keeps.2.2 hstop)
      have hone := htouch.stopped hstop
      refine ⟨q, hq, hqstop, ?_⟩
      rw [List.countP_cons]
      omega

/-! ## The record of a publication -/

/-- What became of the peers of the publication in progress. -/
structure Account where
  order : List Nat
  skipped : List Nat
  unmatched : List Nat
  short : List Nat
  granted : List Nat
  queued : List Nat
  lost : List Nat
deriving DecidableEq, Repr

/-- One step of the record. -/
def Account.record (a : Account) : Event × Report → Account
  | (.lock _ order, _) => ⟨order, [], [], [], [], [], []⟩
  | (.publishStep, .skipped i) => { a with skipped := i :: a.skipped }
  | (.publishStep, .unmatched i) => { a with unmatched := i :: a.unmatched }
  | (.publishStep, .short i) => { a with short := i :: a.short }
  | (.publishStep, .granted i) => { a with granted := i :: a.granted }
  | (.publishStep, .queued i) => { a with queued := i :: a.queued }
  | (.publishStep, .lost i) => { a with lost := i :: a.lost }
  | _ => a

/-- The record of the last publication that got the lock. -/
def account (l : List (Event × Report)) : Account :=
  l.foldl Account.record ⟨[], [], [], [], [], [], []⟩

@[simp] lemma account_concat (x : Event × Report) : account (l ++ [x]) = (account l).record x := by
  simp [account]

/-- Each peer of the table is still to be visited or has been dealt with. -/
def Account.Seen (a : Account) (rest : List Nat) : Prop :=
  ∀ j ∈ a.order, j ∈ rest ∨ j ∈ a.skipped ∨ j ∈ a.unmatched ∨ j ∈ a.short ∨ j ∈ a.granted

/-- Nothing has been sent. -/
def Account.Unsent (a : Account) : Prop := a.queued = [] ∧ a.lost = []

/-- What the record says at each stage. -/
def Account.At (a : Account) : PublishStage → Prop
  | .visit rest reserved => a.Seen rest ∧ (∀ j, j ∈ a.granted ↔ j ∈ reserved) ∧ a.Unsent
  | .subs i rest reserved | .bytes i rest reserved =>
      a.Seen (i :: rest) ∧ (∀ j, j ∈ a.granted ↔ j ∈ reserved) ∧ a.Unsent
  | .count i got rest reserved =>
      a.Seen (i :: rest) ∧ (got = false → i ∈ a.short) ∧ (∀ j, j ∈ a.granted ↔ j ∈ reserved) ∧
        a.Unsent
  | .deny _ rest reserved | .drop _ rest reserved =>
      a.Seen rest ∧ (∀ j, j ∈ a.granted ↔ j ∈ reserved) ∧ a.Unsent
  | .globals _ reserved => a.Seen [] ∧ (∀ j, j ∈ a.granted ↔ j ∈ reserved) ∧ a.Unsent
  | .abort _ _ => a.Seen [] ∧ a.Unsent
  | .send rest => a.Seen [] ∧ ∀ j, j ∈ a.granted ↔ j ∈ a.queued ∨ j ∈ a.lost ∨ j ∈ rest

lemma Account.Seen.mono {a b : Account} {rest rest' : List Nat} (h : a.Seen rest)
    (horder : b.order = a.order)
    (hrest : ∀ j ∈ rest, j ∈ rest' ∨ j ∈ b.skipped ∨ j ∈ b.unmatched ∨ j ∈ b.short ∨ j ∈ b.granted)
    (hskipped : a.skipped ⊆ b.skipped) (hunmatched : a.unmatched ⊆ b.unmatched)
    (hshort : a.short ⊆ b.short) (hgranted : a.granted ⊆ b.granted) : b.Seen rest' := by
  intro j hj
  rcases h j (horder ▸ hj) with hj | hj | hj | hj | hj
  · exact hrest j hj
  · exact .inr (.inl (hskipped hj))
  · exact .inr (.inr (.inl (hunmatched hj)))
  · exact .inr (.inr (.inr (.inl (hshort hj))))
  · exact .inr (.inr (.inr (.inr (hgranted hj))))

/-- A peer is dealt with once it is recorded. -/
lemma Account.Seen.next {a b : Account} {rest : List Nat} (h : a.Seen (i :: rest))
    (horder : b.order = a.order)
    (hi : i ∈ b.skipped ∨ i ∈ b.unmatched ∨ i ∈ b.short ∨ i ∈ b.granted)
    (hskipped : a.skipped ⊆ b.skipped) (hunmatched : a.unmatched ⊆ b.unmatched)
    (hshort : a.short ⊆ b.short) (hgranted : a.granted ⊆ b.granted) : b.Seen rest :=
  h.mono horder (List.forall_mem_cons.2 ⟨.inr hi, fun _ hj => .inl hj⟩) hskipped hunmatched hshort
    hgranted

lemma Visited.account {a : Account} (h : a.At stage) {wire : Wire} {topic : Bytes}
    {stage' : PublishStage} (hv : Visited wire topic i p stage q stage' out) :
    (a.record (.publishStep, out)).At stage' := by
  cases hv with
  | skip rest reserved stopped =>
      exact ⟨h.1.next rfl (.inl List.mem_cons_self) (List.subset_cons_self ..) (.refl _) (.refl _)
        (.refl _), h.2⟩
  | look rest reserved live => exact h
  | mismatch rest reserved no =>
      exact ⟨h.1.next rfl (.inr (.inl List.mem_cons_self)) (.refl _) (List.subset_cons_self ..)
        (.refl _) (.refl _), h.2⟩
  | agree rest reserved yes => exact h
  | bytes rest reserved room => exact ⟨h.1, (fun hf => by cases hf), h.2⟩
  | noBytes rest reserved full =>
      exact ⟨h.1.mono rfl (fun _ hj => .inl hj) (.refl _) (.refl _) (List.subset_cons_self ..)
        (.refl _), fun _ => List.mem_cons_self, h.2⟩
  | grant rest reserved room =>
      obtain ⟨hseen, -, hgranted, hunsent⟩ := h
      refine ⟨hseen.next rfl (.inr (.inr (.inr List.mem_cons_self))) (.refl _) (.refl _) (.refl _)
        (List.subset_cons_self ..), ?_, hunsent⟩
      intro j
      rw [List.mem_append, List.mem_singleton, ← hgranted, or_comm]
      exact List.mem_cons
  | half rest reserved room =>
      obtain ⟨hseen, hshort, hrest⟩ := h
      exact ⟨hseen.next rfl (.inr (.inr (.inl (hshort rfl)))) (.refl _) (.refl _) (.refl _)
        (.refl _), hrest⟩
  | noCount got rest reserved full =>
      obtain ⟨hseen, -, hrest⟩ := h
      exact ⟨hseen.next rfl (.inr (.inr (.inl List.mem_cons_self))) (.refl _) (.refl _)
        (List.subset_cons_self ..) (.refl _), hrest⟩
  | deny rest reserved => exact h
  | drop rest reserved => exact h
  | abort rest => exact h
  | queue rest room =>
      refine ⟨h.1, fun j => (h.2 j).trans ?_⟩
      simp only [Account.record, List.mem_cons, or_assoc, or_left_comm]
  | lose rest closed =>
      refine ⟨h.1, fun j => (h.2 j).trans ?_⟩
      simp only [Account.record, List.mem_cons, or_assoc, or_left_comm]

lemma Turns.account {a : Account} (h : a.At stage) {wire : Wire} {stage' : PublishStage}
    (hturn : Turns wire stage (some stage') out) : (a.record (.publishStep, out)).At stage' := by
  cases hturn with
  | visited reserved => exact h
  | take k left reserved => exact h
  | exhausted k globals left reserved => exact ⟨h.1, h.2.2⟩
  | reserved reserved =>
      obtain ⟨hseen, hgranted, hqueued, hlost⟩ := h
      refine ⟨hseen, ?_⟩
      intro j
      simp [Account.record, hgranted, hqueued, hlost]
  | release globals reserved => exact h

end Jupyter.Transport

end Rnx
