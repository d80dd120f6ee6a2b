import Rnx.Jupyter.Connections

/-!
# Publications

A publication holds the permits its stage says of each peer: of the peers it has reserved the bytes
and the count, of the one it is about what it has taken so far.  `Visited` and `Turns` are all its
actions.
-/

namespace Rnx

namespace Jupyter.Transport

variable {kind : Kind} {s t : Endpoint} {out : Report} {p q : Peer} {i j n : Nat}
  {P : Publishing} {stage stage' : PublishStage} {peers : List Peer} {wire : Wire} {topic : Bytes}
  {rest reserved left : List Nat}

/-- The actions of a publication on the peer at `i`: the stage before, the peer and the stage after,
and the report. -/
inductive Visited (wire : Wire) (topic : Bytes) (i : Nat) (p : Peer) :
    PublishStage → Peer → PublishStage → Report → Prop
  | skip (rest reserved : List Nat) (stopped : p.stop = true) :
      Visited wire topic i p (.visit (i :: rest) reserved) p (.visit rest reserved) (.skipped i)
  | look (rest reserved : List Nat) (live : ¬ p.stop = true) :
      Visited wire topic i p (.visit (i :: rest) reserved) p (.subs i rest reserved) .quiet
  | mismatch (rest reserved : List Nat) (no : ¬ p.subscribed topic = true) :
      Visited wire topic i p (.subs i rest reserved) p (.visit rest reserved) (.unmatched i)
  | agree (rest reserved : List Nat) (yes : p.subscribed topic = true) :
      Visited wire topic i p (.subs i rest reserved) p (.bytes i rest reserved) .quiet
  | bytes (rest reserved : List Nat) (room : wire.capacity ≤ p.free.bytes) :
      Visited wire topic i p (.bytes i rest reserved)
        { p with
          free := ⟨p.free.bytes - wire.capacity, p.free.count⟩
          reserved := ⟨wire.capacity, 0⟩ }
        (.count i true rest reserved) .quiet
  | noBytes (rest reserved : List Nat) (full : ¬ wire.capacity ≤ p.free.bytes) :
      Visited wire topic i p (.bytes i rest reserved) p (.count i false rest reserved) (.short i)
  | grant (rest reserved : List Nat) (room : 1 ≤ p.free.count) :
      Visited wire topic i p (.count i true rest reserved)
        { p with
          free := ⟨p.free.bytes, p.free.count - 1⟩
          reserved := ⟨p.reserved.bytes, 1⟩ }
        (.visit rest (reserved ++ [i])) (.granted i)
  | half (rest reserved : List Nat) (room : 1 ≤ p.free.count) :
      Visited wire topic i p (.count i false rest reserved)
        { p with
          free := ⟨p.free.bytes, p.free.count - 1⟩
          reserved := ⟨p.reserved.bytes, 1⟩ }
        (.deny i rest reserved) .quiet
  | noCount (got : Bool) (rest reserved : List Nat) (full : ¬ 1 ≤ p.free.count) :
      Visited wire topic i p (.count i got rest reserved) p (.deny i rest reserved) (.short i)
  | deny (rest reserved : List Nat) :
      Visited wire topic i p (.deny i rest reserved) { p with stop := true } (.drop i rest reserved)
        .quiet
  | drop (rest reserved : List Nat) :
      Visited wire topic i p (.drop i rest reserved) p.unreserve (.visit rest reserved) .quiet
  | abort (rest : List Nat) :
      Visited wire topic i p (.abort 0 (i :: rest)) p.unreserve (.abort 0 rest) .quiet
  | queue (rest : List Nat) (room : p.opened = true ∧ p.queue.length < channelCapacity) :
      Visited wire topic i p (.send (i :: rest))
        { p with queue := p.queue ++ [⟨wire, false, p.reserved, wire.capacity⟩], reserved := ⟨0, 0⟩ }
        (.send rest) (.queued i)
  | lose (rest : List Nat) (closed : ¬ (p.opened = true ∧ p.queue.length < channelCapacity)) :
      Visited wire topic i p (.send (i :: rest)) p.unreserve (.send rest) (.lost i)

/-- The other actions: the stage before, the stage after unless the publication returns, and the
report. -/
inductive Turns (wire : Wire) : PublishStage → Option PublishStage → Report → Prop
  | visited (reserved : List Nat) :
      Turns wire (.visit [] reserved) (some (.globals reserved reserved)) .quiet
  | take (k : Nat) (left reserved : List Nat) :
      Turns wire (.globals (k :: left) reserved) (some (.globals left reserved)) .quiet
  | exhausted (k globals : Nat) (left reserved : List Nat) :
      Turns wire (.globals (k :: left) reserved) (some (.abort globals reserved)) .quiet
  | reserved (reserved : List Nat) :
      Turns wire (.globals [] reserved) (some (.send reserved)) .quiet
  | release (globals : Nat) (reserved : List Nat) :
      Turns wire (.abort (globals + 1) reserved) (some (.abort 0 reserved)) .quiet
  | failed : Turns wire (.abort 0 []) none (.returned (.error noPermits))
  | done : Turns wire (.send []) none (.returned (.ok ()))

lemma publishAt_visited (htarget : P.stage.target = some i) : ∃ q stage,
    Visited P.wire P.topic i p P.stage q stage (publishAt P i p s).2 ∧
      (s.peers[i]? = some p → (publishAt P i p s).1.peers = s.peers.set i q) ∧
      (publishAt P i p s).1.publishing = some { P with stage := stage } ∧
      (publishAt P i p s).1.table = s.table ∧ (publishAt P i p s).1.next = s.next := by
  obtain ⟨wire, topic, stage⟩ := P
  unfold publishAt
  cases stage with
  | visit rest reserved =>
      obtain ⟨tail, rfl⟩ := List.head?_eq_some_iff.1 htarget
      simp only
      split_ifs with hstop
      · exact ⟨p, _, .skip tail reserved hstop, set_same, rfl, rfl, rfl⟩
      · exact ⟨p, _, .look tail reserved hstop, set_same, rfl, rfl, rfl⟩
  | subs k rest reserved =>
      obtain rfl : k = i := Option.some.inj htarget
      simp only
      split_ifs with hsub
      · exact ⟨p, _, .agree rest reserved hsub, set_same, rfl, rfl, rfl⟩
      · exact ⟨p, _, .mismatch rest reserved hsub, set_same, rfl, rfl, rfl⟩
  | bytes k rest reserved =>
      obtain rfl : k = i := Option.some.inj htarget
      simp only
      split
      · next q hq =>
        obtain ⟨hroom, rfl⟩ := takeBytes_eq_some.1 hq
        exact ⟨_, _, .bytes rest reserved hroom, fun _ => rfl, rfl, rfl, rfl⟩
      · next hq =>
        refine ⟨p, _, .noBytes rest reserved fun hroom => ?_, set_same, rfl, rfl, rfl⟩
        rw [takeBytes_eq_some.2 ⟨hroom, rfl⟩] at hq
        cases hq
  | count k got rest reserved =>
      obtain rfl : k = i := Option.some.inj htarget
      simp only
      split
      · next q hq =>
        obtain ⟨hroom, rfl⟩ := takeCount_eq_some.1 hq
        cases got with
        | true => exact ⟨_, _, .grant rest reserved hroom, fun _ => rfl, rfl, rfl, rfl⟩
        | false => exact ⟨_, _, .half rest reserved hroom, fun _ => rfl, rfl, rfl, rfl⟩
      · next hq =>
        refine ⟨p, _, .noCount got rest reserved fun hroom => ?_, set_same, rfl, rfl, rfl⟩
        rw [takeCount_eq_some.2 ⟨hroom, rfl⟩] at hq
        cases hq
  | deny k rest reserved =>
      obtain rfl : k = i := Option.some.inj htarget
      exact ⟨_, _, .deny rest reserved, fun _ => rfl, rfl, rfl, rfl⟩
  | drop k rest reserved =>
      obtain rfl : k = i := Option.some.inj htarget
      exact ⟨_, _, .drop rest reserved, fun _ => rfl, rfl, rfl, rfl⟩
  | globals left reserved => cases htarget
  | abort globals reserved =>
      cases globals with
      | zero =>
          obtain ⟨tail, rfl⟩ := List.head?_eq_some_iff.1 htarget
          exact ⟨_, _, .abort tail, fun _ => rfl, rfl, rfl, rfl⟩
      | succ globals => cases htarget
  | send rest =>
      obtain ⟨tail, rfl⟩ := List.head?_eq_some_iff.1 htarget
      simp only
      split
      · next q hq =>
        obtain ⟨hroom, rfl⟩ := trySend_eq_some.1 hq
        exact ⟨_, _, .queue tail hroom, fun _ => rfl, rfl, rfl, rfl⟩
      · next hq =>
        refine ⟨_, _, .lose tail fun hroom => ?_, fun _ => rfl, rfl, rfl, rfl⟩
        rw [trySend_eq_some.2 ⟨hroom, rfl⟩] at hq
        cases hq

lemma publishOn_turns (htarget : P.stage.target = none) : ∃ stage,
    Turns P.wire P.stage stage (publishOn P s).2 ∧
      (publishOn P s).1.publishing = stage.map (fun stage => { P with stage := stage }) ∧
      (publishOn P s).1.peers = s.peers ∧ (publishOn P s).1.table = s.table ∧
      (publishOn P s).1.next = s.next := by
  obtain ⟨wire, topic, stage⟩ := P
  unfold publishOn
  cases stage with
  | visit rest reserved =>
      obtain rfl : rest = [] := List.head?_eq_none_iff.1 htarget
      exact ⟨_, .visited reserved, rfl, rfl, rfl, rfl⟩
  | globals left reserved =>
      cases left with
      | nil => exact ⟨_, .reserved reserved, rfl, rfl, rfl, rfl⟩
      | cons k left =>
          simp only
          split_ifs
          · exact ⟨_, .take k left reserved, rfl, rfl, rfl, rfl⟩
          · exact ⟨_, .exhausted k _ left reserved, rfl, rfl, rfl, rfl⟩
  | abort globals reserved =>
      cases globals with
      | zero =>
          obtain rfl : reserved = [] := List.head?_eq_none_iff.1 htarget
          exact ⟨_, .failed, rfl, rfl, rfl, rfl⟩
      | succ globals => exact ⟨_, .release globals reserved, rfl, rfl, rfl, rfl⟩
  | send rest =>
      obtain rfl : rest = [] := List.head?_eq_none_iff.1 htarget
      exact ⟨_, .done, rfl, rfl, rfl, rfl⟩
  | subs k rest reserved => cases htarget
  | bytes k rest reserved => cases htarget
  | count k got rest reserved => cases htarget
  | deny k rest reserved => cases htarget
  | drop k rest reserved => cases htarget

/-! ## The permits a publication holds -/

/-- The peers a publication still has to do with. -/
def PublishStage.places : PublishStage → List Nat
  | .visit rest reserved => rest ++ reserved
  | .subs i rest reserved | .bytes i rest reserved | .count i _ rest reserved
  | .deny i rest reserved | .drop i rest reserved => i :: (rest ++ reserved)
  | .globals _ reserved | .abort _ reserved => reserved
  | .send rest => rest

/-- The permits of a wire of capacity `n`, where `j` is reserved. -/
def held (n : Nat) (reserved : List Nat) (j : Nat) : Credit := if j ∈ reserved then ⟨n, 1⟩ else ⟨0, 0⟩

/-- The permits a publication holds of the peer at `j`. -/
def PublishStage.Holds (n : Nat) (j : Nat) (c : Credit) : PublishStage → Prop
  | .visit _ reserved | .subs _ _ reserved | .bytes _ _ reserved | .globals _ reserved
  | .abort _ reserved | .send reserved => c = held n reserved j
  | .count i got _ reserved =>
      (j = i → c = ⟨if got = true then n else 0, 0⟩) ∧ (j ≠ i → c = held n reserved j)
  | .deny i _ reserved | .drop i _ reserved => j ≠ i → c = held n reserved j

/-- A publication among the peers. -/
structure Publishing.Sound (P : Publishing) (peers : List Peer) : Prop where
  nodup : P.stage.places.Nodup
  valid : ∀ i ∈ P.stage.places, i < peers.length
  holds : ∀ (j : Nat) (p : Peer), peers[j]? = some p →
    P.stage.Holds P.wire.capacity j p.reserved

lemma held_append_ne (h : j ≠ i) : held n (reserved ++ [i]) j = held n reserved j := by
  simp [held, h]

lemma held_cons_ne (h : j ≠ i) : held n (i :: rest) j = held n rest j := by
  simp [held, h]

lemma held_not_mem (h : j ∉ reserved) : held n reserved j = ⟨0, 0⟩ := if_neg h

/-- A publication that has acted on the peer at `i`. -/
lemma Publishing.Sound.set (h : P.Sound peers) (hsub : ∀ k ∈ stage.places, k ∈ P.stage.places)
    (hnodup : stage.places.Nodup) (hi : stage.Holds P.wire.capacity i q.reserved)
    (hother : ∀ j c, j ≠ i → P.stage.Holds P.wire.capacity j c →
      stage.Holds P.wire.capacity j c) :
    Publishing.Sound { P with stage := stage } (peers.set i q) := by
  refine ⟨hnodup, ?_, ?_⟩
  · intro k hk
    rw [List.length_set]
    exact h.valid k (hsub k hk)
  · intro j p hp
    rw [List.getElem?_set] at hp
    split_ifs at hp with hij hlt
    · obtain rfl := Option.some.inj hp
      rw [← hij]
      exact hi
    · exact hother j p.reserved (Ne.symm hij) (h.holds j p hp)

/-- What a publication's action does to its peer. -/
structure VisitEffect (kind : Kind) (p q : Peer) (wire : Wire) (i : Nat) (out : Report) : Prop where
  keeps : Keeps p q
  sound : p.Sound kind.limit → q.Sound kind.limit
  sends : q.sends = p.sends
  queue : q.queue = p.queue ∧ out ≠ .queued i ∨ out = .queued i ∧
    q.queue = p.queue ++ [⟨wire, false, p.reserved, wire.capacity⟩]

lemma Visited.effect (h : Visited wire topic i p stage q stage' out)
    (hholds : stage.Holds wire.capacity i p.reserved) (hnodup : stage.places.Nodup) :
    VisitEffect kind p q wire i out := by
  cases h with
  | skip rest reserved stopped =>
      exact ⟨.refl p, id, rfl, .inl ⟨rfl, fun h => by cases h⟩⟩
  | look rest reserved live => exact ⟨.refl p, id, rfl, .inl ⟨rfl, fun h => by cases h⟩⟩
  | mismatch rest reserved no => exact ⟨.refl p, id, rfl, .inl ⟨rfl, fun h => by cases h⟩⟩
  | agree rest reserved yes => exact ⟨.refl p, id, rfl, .inl ⟨rfl, fun h => by cases h⟩⟩
  | bytes rest reserved room =>
      have hzero : p.reserved = ⟨0, 0⟩ := by
        rw [hholds]
        exact held_not_mem fun hmem => (List.nodup_cons.1 hnodup).1 (List.mem_append_right _ hmem)
      refine ⟨⟨rfl, rfl, rfl, id, id, id⟩, fun h => h.reserve _ _ ?_ ?_, rfl,
        .inl ⟨rfl, fun h => by cases h⟩⟩
      · simp only [hzero]
        omega
      · simp only [hzero]
  | noBytes rest reserved full => exact ⟨.refl p, id, rfl, .inl ⟨rfl, fun h => by cases h⟩⟩
  | grant rest reserved room =>
      have hcount : p.reserved.count = 0 := by rw [hholds.1 rfl]
      refine ⟨⟨rfl, rfl, rfl, id, id, id⟩, fun h => h.reserve _ _ rfl ?_, rfl,
        .inl ⟨rfl, fun h => by cases h⟩⟩
      simp only [hcount]
      omega
  | half rest reserved room =>
      have hcount : p.reserved.count = 0 := by rw [hholds.1 rfl]
      refine ⟨⟨rfl, rfl, rfl, id, id, id⟩, fun h => h.reserve _ _ rfl ?_, rfl,
        .inl ⟨rfl, fun h => by cases h⟩⟩
      simp only [hcount]
      omega
  | noCount got rest reserved full => exact ⟨.refl p, id, rfl, .inl ⟨rfl, fun h => by cases h⟩⟩
  | deny rest reserved =>
      exact ⟨⟨rfl, rfl, rfl, fun _ => rfl, id, id⟩,
        fun h => h.congr rfl rfl rfl rfl rfl h.opened, rfl, .inl ⟨rfl, fun h => by cases h⟩⟩
  | drop rest reserved =>
      exact ⟨⟨rfl, rfl, rfl, id, id, id⟩, fun h => h.unreserve, rfl,
        .inl ⟨rfl, fun h => by cases h⟩⟩
  | abort rest =>
      exact ⟨⟨rfl, rfl, rfl, id, id, id⟩, fun h => h.unreserve, rfl,
        .inl ⟨rfl, fun h => by cases h⟩⟩
  | queue rest room =>
      have hfull : p.reserved = ⟨wire.capacity, 1⟩ := by
        rw [hholds, held, if_pos List.mem_cons_self]
      exact ⟨⟨rfl, rfl, rfl, id, id, id⟩, fun h => h.publish hfull rfl, rfl, .inr ⟨rfl, rfl⟩⟩
  | lose rest closed =>
      exact ⟨⟨rfl, rfl, rfl, id, id, id⟩, fun h => h.unreserve, rfl,
        .inl ⟨rfl, fun h => by cases h⟩⟩

/-- An action on a peer keeps the permits of the publication accounted for. -/
lemma Visited.keeps_sound (h : P.Sound peers) (hp : peers[i]? = some p)
    (hv : Visited P.wire P.topic i p P.stage q stage out) :
    Publishing.Sound { P with stage := stage } (peers.set i q) := by
  obtain ⟨wire, topic, st⟩ := P
  have hhere := h.holds i p hp
  have hnodup := h.nodup
  cases hv with
  | skip rest reserved stopped =>
      exact h.set (fun k hk => List.mem_cons_of_mem _ hk) (List.nodup_cons.1 hnodup).2 hhere
        fun j c _ hc => hc
  | look rest reserved live => exact h.set (fun k hk => hk) hnodup hhere fun j c _ hc => hc
  | mismatch rest reserved no =>
      exact h.set (fun k hk => List.mem_cons_of_mem _ hk) (List.nodup_cons.1 hnodup).2 hhere
        fun j c _ hc => hc
  | agree rest reserved yes => exact h.set (fun k hk => hk) hnodup hhere fun j c _ hc => hc
  | bytes rest reserved room =>
      refine h.set (fun k hk => hk) hnodup ⟨fun _ => rfl, fun hne => absurd rfl hne⟩ ?_
      exact fun j c hj hc => ⟨fun heq => absurd heq hj, fun _ => hc⟩
  | noBytes rest reserved full =>
      have hzero : p.reserved = ⟨0, 0⟩ := by
        rw [hhere]
        exact held_not_mem fun hmem => (List.nodup_cons.1 hnodup).1 (List.mem_append_right _ hmem)
      refine h.set (fun k hk => hk) hnodup ⟨fun _ => hzero, fun hne => absurd rfl hne⟩ ?_
      exact fun j c hj hc => ⟨fun heq => absurd heq hj, fun _ => hc⟩
  | grant rest reserved room =>
      have hbytes : p.reserved.bytes = wire.capacity := by rw [hhere.1 rfl, if_pos rfl]
      refine h.set ?_ ?_ ?_ fun j c hj hc => ?_
      · intro k hk
        simp only [PublishStage.places, List.mem_append, List.mem_cons, List.not_mem_nil,
          or_false] at hk ⊢
        tauto
      · have hperm : (rest ++ (reserved ++ [i])).Perm (i :: (rest ++ reserved)) := by
          rw [← List.append_assoc]
          exact List.perm_append_singleton i _
        exact hperm.nodup_iff.2 hnodup
      · simp [PublishStage.Holds, held, hbytes]
      · exact (hc.2 hj).trans (held_append_ne hj).symm
  | half rest reserved room =>
      exact h.set (fun k hk => hk) hnodup (fun hne => absurd rfl hne) fun j c hj hc _ => hc.2 hj
  | noCount got rest reserved full =>
      exact h.set (fun k hk => hk) hnodup (fun hne => absurd rfl hne) fun j c hj hc _ => hc.2 hj
  | deny rest reserved =>
      exact h.set (fun k hk => hk) hnodup (fun hne => absurd rfl hne) fun j c hj hc _ => hc hj
  | drop rest reserved =>
      refine h.set (fun k hk => List.mem_cons_of_mem _ hk) (List.nodup_cons.1 hnodup).2 ?_
        fun j c hj hc => hc hj
      exact (held_not_mem fun hmem =>
        (List.nodup_cons.1 hnodup).1 (List.mem_append_right _ hmem)).symm
  | abort rest =>
      refine h.set (fun k hk => List.mem_cons_of_mem _ hk) (List.nodup_cons.1 hnodup).2 ?_
        fun j c hj hc => hc.trans (held_cons_ne hj)
      exact (held_not_mem (List.nodup_cons.1 hnodup).1).symm
  | queue rest room =>
      refine h.set (fun k hk => List.mem_cons_of_mem _ hk) (List.nodup_cons.1 hnodup).2 ?_
        fun j c hj hc => hc.trans (held_cons_ne hj)
      exact (held_not_mem (List.nodup_cons.1 hnodup).1).symm
  | lose rest closed =>
      refine h.set (fun k hk => List.mem_cons_of_mem _ hk) (List.nodup_cons.1 hnodup).2 ?_
        fun j c hj hc => hc.trans (held_cons_ne hj)
      exact (held_not_mem (List.nodup_cons.1 hnodup).1).symm

/-- A publication that goes on without a peer holds what it held. -/
lemma Turns.keeps_sound (h : P.Sound peers) (hturn : Turns P.wire P.stage (some stage) out) :
    Publishing.Sound { P with stage := stage } peers := by
  obtain ⟨wire, topic, st⟩ := P
  obtain ⟨hnodup, hvalid, hholds⟩ := h
  cases hturn with
  | visited reserved => exact ⟨hnodup, hvalid, hholds⟩
  | take k left reserved => exact ⟨hnodup, hvalid, hholds⟩
  | exhausted k globals left reserved => exact ⟨hnodup, hvalid, hholds⟩
  | reserved reserved => exact ⟨hnodup, hvalid, hholds⟩
  | release globals reserved => exact ⟨hnodup, hvalid, hholds⟩

/-- A publication that returns holds nothing. -/
lemma Turns.holds_nothing (h : P.Sound peers) (hturn : Turns P.wire P.stage none out)
    (hp : peers[j]? = some p) : p.reserved = ⟨0, 0⟩ := by
  obtain ⟨wire, topic, st⟩ := P
  have hholds := h.holds j p hp
  cases hturn with
  | failed => exact hholds.trans (held_not_mem List.not_mem_nil)
  | done => exact hholds.trans (held_not_mem List.not_mem_nil)

end Jupyter.Transport

end Rnx
