import Rnx.Jupyter.Credit

/-!
# The table of an endpoint

The table has exactly the connections that have not left it, each under its identity; generations
grow with the order of admission.  The permits a publication holds of a peer are those its stage
says.  `Effect` says once what an action on a peer does to it; every action keeps the invariant.
-/

namespace Rnx

namespace Jupyter.Transport

variable {kind : Kind} {s t : Endpoint} {e : Event} {out : Report} {p q : Peer} {i j n : Nat}
  {P : Publishing} {stage : PublishStage}

/-! ## What an action does to a peer -/

/-- What no action changes of a peer, and what goes one way only. -/
structure Keeps (p q : Peer) : Prop where
  id : q.id = p.id
  generation : q.generation = p.generation
  removed : q.removed = p.removed
  stop : p.stop = true → q.stop = true
  running : q.running = true → p.running = true
  opened : q.opened = true → p.opened = true

lemma Keeps.refl (p : Peer) : Keeps p p :=
  ⟨rfl, rfl, rfl, fun h => h, fun h => h, fun h => h⟩

/-- A sender that may still enter the channel. -/
def Send.entering (v : Send) : Bool := v.stage = .bytes ∨ v.stage = .count ∨ v.stage = .enter

/-- The senders of a peer that may still enter its channel. -/
def Peer.entering (p : Peer) : Nat := p.sends.countP (·.entering)

/-- What an action does to the channel: nothing, a packet leaves it, or a sender of the peer that
has its permits enters it. -/
def Queues (p q : Peer) (i : Nat) (out : Report) : Prop :=
  (q.queue = p.queue ∨ q.queue = p.queue.tail) ∧ q.entering ≤ p.entering ∧ out ≠ .queued i ∨
    ∃ v ∈ p.sends, v.stage = .enter ∧ p.opened = true ∧ out = .queued i ∧
      q.queue = p.queue ++ [⟨v.wire, v.origin == .replyWritten, v.held, 0⟩] ∧
      q.entering + 1 = p.entering

/-- A sender starts on the peer, refused when the peer has stopped. -/
def Starts (p q : Peer) (out : Report) : Prop :=
  ∃ v, q = { p with sends := v :: p.sends } ∧ out = .quiet ∧ v.Sound ∧ v.held = ⟨0, 0⟩ ∧
    (p.stop = true → ∃ error, v.stage = .refused error)

/-- What an action on the peer at `i` does to it. -/
structure Effect (kind : Kind) (p q : Peer) (i : Nat) (out : Report) : Prop where
  keeps : Keeps p q
  reserved : q.reserved = p.reserved
  sound : p.Sound kind.limit → q.Sound kind.limit
  queue : Starts p q out ∨ Queues p q i out

lemma Effect.refl (kind : Kind) (p : Peer) (h : out ≠ .queued i) : Effect kind p p i out :=
  ⟨.refl p, rfl, id, .inr (.inl ⟨.inl rfl, Nat.le_refl _, h⟩)⟩

lemma enqueue_starts (origin : Origin) (wire : Except String Wire) (p : Peer) :
    Starts p { p with sends := enqueue origin wire p :: p.sends } .quiet := by
  obtain ⟨hsound, hheld⟩ := enqueue_sound origin wire p
  refine ⟨_, rfl, rfl, hsound, hheld, ?_⟩
  intro hstop
  unfold enqueue
  cases wire with
  | error error => exact ⟨error, rfl⟩
  | ok wire => exact ⟨"closed generation", by simp only [if_pos hstop]⟩

lemma enqueue_effect (origin : Origin) (wire : Except String Wire) (p : Peer) :
    Effect kind p { p with sends := enqueue origin wire p :: p.sends } i .quiet := by
  obtain ⟨hsound, hheld⟩ := enqueue_sound origin wire p
  exact ⟨⟨rfl, rfl, rfl, id, id, id⟩, rfl, fun h => h.start hsound hheld,
    .inl (enqueue_starts origin wire p)⟩

lemma countP_eraseIdx {l : List Send} {v : Send} {j : Nat} (f : Send → Bool) (h : l[j]? = some v) :
    l.countP f = (l.eraseIdx j).countP f + if f v = true then 1 else 0 := by
  induction l generalizing j with
  | nil => cases h
  | cons u l ih =>
      cases j with
      | zero =>
          obtain rfl : u = v := Option.some.inj h
          simp [List.countP_cons]
      | succ j =>
          have hrest := ih (j := j) h
          simp only [List.countP_cons, List.eraseIdx_cons_succ]
          omega

/-- A sender's action: it enters the channel, or may do so later only if it could before. -/
lemma advanced_effect {v : Send} {w : Option Send} {sent : Sent} (hj : p.sends[j]? = some v)
    (hadv : Advanced v p q w sent) :
    Effect kind p { q with sends := w.toList ++ p.sends.eraseIdx j } i (sent.report i) := by
  have hcount := countP_eraseIdx (·.entering) hj
  have hmem := List.mem_of_getElem? hj
  have hle : ∀ r : Peer, (∀ u, w = some u → u.entering = true → v.entering = true) →
      ({ r with sends := w.toList ++ p.sends.eraseIdx j } : Peer).entering ≤ p.entering := by
    intro r hw
    simp only [Peer.entering, List.countP_append, hcount]
    cases w with
    | none => simp
    | some u =>
        by_cases hu : u.entering = true
        · simp [hu, hw u rfl hu]
          omega
        · simp [hu]
  cases hadv with
  | bytes stage room =>
      refine ⟨⟨rfl, rfl, rfl, id, id, id⟩, rfl, fun h => h.advance hj (.bytes stage room), .inr ?_⟩
      refine .inl ⟨.inl rfl, hle _ (fun u _ _ => by simp [Send.entering, stage]), fun h => by cases h⟩
  | count stage room =>
      refine ⟨⟨rfl, rfl, rfl, id, id, id⟩, rfl, fun h => h.advance hj (.count stage room), .inr ?_⟩
      refine .inl ⟨.inl rfl, hle _ (fun u _ _ => by simp [Send.entering, stage]), fun h => by cases h⟩
  | enter stage room =>
      refine ⟨⟨rfl, rfl, rfl, id, id, id⟩, rfl, fun h => h.advance hj (.enter stage room), .inr ?_⟩
      refine .inr ⟨v, hmem, stage, room.1, rfl, rfl, ?_⟩
      have hv : v.entering = true := by simp [Send.entering, stage]
      simp only [Peer.entering, List.countP_append, hcount, hv, if_true]
      split_ifs with horigin
      · simp [Send.entering]
      · simp
  | refuse error busy =>
      refine ⟨⟨rfl, rfl, rfl, id, id, id⟩, rfl, fun h => h.advance hj (.refuse error busy), .inr ?_⟩
      refine .inl ⟨.inl rfl, hle _ ?_, fun h => by cases h⟩
      intro u hu hentering
      obtain rfl := Option.some.inj hu
      cases hentering
  | leave error stage own =>
      refine ⟨⟨rfl, rfl, rfl, id, id, id⟩, rfl, fun h => h.advance hj (.leave error stage own),
        .inr ?_⟩
      refine .inl ⟨.inl rfl, hle _ (fun u hu => by cases hu), fun h => by cases h⟩
  | release error stage route =>
      refine ⟨⟨rfl, rfl, rfl, id, id, id⟩, rfl, fun h => h.advance hj (.release error stage route),
        .inr ?_⟩
      refine .inl ⟨.inl rfl, hle _ ?_, fun h => by cases h⟩
      intro u hu hentering
      obtain rfl := Option.some.inj hu
      cases hentering
  | stop error stage =>
      refine ⟨⟨rfl, rfl, rfl, fun _ => rfl, id, id⟩, rfl,
        fun h => h.advance hj (.stop error stage), .inr ?_⟩
      refine .inl ⟨.inl rfl, hle _ (fun u hu => by cases hu), fun h => by cases h⟩

/-- An action that touches neither the senders nor, but for its head, the channel. -/
lemma Effect.plain (keeps : Keeps p q) (reserved : q.reserved = p.reserved)
    (sound : p.Sound kind.limit → q.Sound kind.limit) (sends : q.sends = p.sends)
    (queue : q.queue = p.queue ∨ q.queue = p.queue.tail) (hout : out ≠ .queued i) :
    Effect kind p q i out :=
  ⟨keeps, reserved, sound,
    .inr (.inl ⟨queue, Nat.le_of_eq (by rw [Peer.entering, Peer.entering, sends]), hout⟩)⟩

lemma subscription_effect (parts : List Bytes) (p : Peer) :
    Effect kind p (subscription parts p).1 i (.returned (subscription parts p).2) := by
  have hsubs : ∃ subs, (subscription parts p).1 = { p with subs := subs } := by
    unfold subscription
    dsimp only
    split
    · split_ifs
      · exact ⟨p.subs, rfl⟩
      · exact ⟨p.subs, rfl⟩
      · exact ⟨_, rfl⟩
      · exact ⟨p.subs, rfl⟩
      · split
        · split_ifs
          · exact ⟨_, rfl⟩
          · exact ⟨_, rfl⟩
        · exact ⟨p.subs, rfl⟩
      · exact ⟨p.subs, rfl⟩
    · exact ⟨p.subs, rfl⟩
  obtain ⟨subs, heq⟩ := hsubs
  rw [heq]
  exact .plain ⟨rfl, rfl, rfl, id, id, id⟩ rfl (fun h => h.congr rfl rfl rfl rfl rfl h.opened) rfl
    (.inl rfl) fun h => by cases h

lemma settle_effect {v : Send} (hj : p.sends[j]? = some v) (hstage : v.stage = .waiting)
    (written : Except String Unit) :
    Effect kind p { p with sends := (settle v written).1.toList ++ p.sends.eraseIdx j } i
      ((settle v written).2.report i) := by
  refine ⟨⟨rfl, rfl, rfl, id, id, id⟩, rfl, fun h => h.settle hj hstage written,
    .inr (.inl ⟨.inl rfl, ?_, ?_⟩)⟩
  · have hcount := countP_eraseIdx (·.entering) hj
    simp only [Peer.entering, List.countP_append, hcount]
    cases written with
    | ok u => simp [settle]
    | error error => simp [settle, Send.entering]
  · cases written with
    | ok u => exact fun h => by cases h
    | error error => exact fun h => by cases h

lemma receive_effect (hq : p.receive = some q) : Effect kind p q i .quiet := by
  have hsound : p.Sound kind.limit → q.Sound kind.limit := fun h => h.receive hq
  unfold Peer.receive at hq
  split at hq
  · next packet rest hcurrent hqueue =>
    split_ifs at hq
    obtain rfl := Option.some.inj hq
    exact .plain ⟨rfl, rfl, rfl, id, id, id⟩ rfl hsound rfl (.inr (by rw [hqueue]; rfl))
      fun h => by cases h
  · cases hq

lemma dropCurrent_keeps (p : Peer) : Keeps p p.dropCurrent.1 ∧
    p.dropCurrent.1.reserved = p.reserved ∧ p.dropCurrent.1.sends = p.sends ∧
      p.dropCurrent.1.queue = p.queue ∧ p.dropCurrent.1.running = p.running := by
  unfold Peer.dropCurrent
  cases p.current with
  | none => exact ⟨.refl p, rfl, rfl, rfl, rfl⟩
  | some packet => exact ⟨⟨rfl, rfl, rfl, id, id, id⟩, rfl, rfl, rfl, rfl⟩

lemma drain_effect {global : Nat} (hq : p.drain = some (q, global)) :
    Effect kind p q i .quiet := by
  have hsound : p.Sound kind.limit → q.Sound kind.limit := fun h => h.drain hq
  unfold Peer.drain at hq
  split at hq
  · next packet rest hqueue =>
    split_ifs at hq
    obtain ⟨rfl, -⟩ := Prod.ext_iff.1 (Option.some.inj hq)
    exact .plain ⟨rfl, rfl, rfl, id, id, id⟩ rfl hsound rfl (.inr (by rw [hqueue]; rfl))
      fun h => by cases h
  · cases hq

/-! ## Actions on a peer -/

/-- A connection leaves the table. -/
structure Removes (s : Endpoint) (i : Nat) (p : Peer) (t : Endpoint) : Prop where
  ended : p.running = false
  stopped : p.stop = true
  present : p.removed = false
  unlocked : s.publishing = none
  peers : t.peers = s.peers.set i { p with removed := true }
  table : t.table = if (s.table.lookup p.id).bind (fun j => (s.peers[j]?).map (·.generation)) =
    some p.generation then s.table.erase p.id else s.table

/-- What an action on the peer at `i` leaves of the endpoint. -/
structure Acts (kind : Kind) (s : Endpoint) (i : Nat) (p : Peer) (t : Endpoint) (out : Report) :
    Prop where
  peer : ∃ q, t.peers = s.peers.set i q ∧ Effect kind p q i out
  table : t.table = s.table

lemma set_same (hp : s.peers[i]? = some p) : s.peers = s.peers.set i p := by
  apply List.ext_getElem?
  intro j
  rw [List.getElem?_set]
  split_ifs with hj hlt
  · rw [← hj, hp]
  · exact absurd (List.getElem?_eq_some_iff.1 hp).1 (hj ▸ hlt)
  · rfl

/-- The rest of the endpoint is as it was, but for the publication permits. -/
structure Same (s t : Endpoint) : Prop where
  next : t.next = s.next
  waiting : t.waiting = s.waiting
  publishing : t.publishing = s.publishing

lemma onPeer_remove {k : Nat} (hstep : onPeer kind s i p (.remove k) = some (t, out)) :
    Same s t ∧ Removes s i p t := by
  simp only [onPeer] at hstep
  split_ifs at hstep with hguard hsame
  · obtain ⟨rfl, rfl⟩ := Prod.ext_iff.1 (Option.some.inj hstep)
    exact ⟨⟨rfl, rfl, rfl⟩, hguard.1, hguard.2.1, hguard.2.2.1, hguard.2.2.2, rfl,
      by rw [if_pos hsame]⟩
  · obtain ⟨rfl, rfl⟩ := Prod.ext_iff.1 (Option.some.inj hstep)
    exact ⟨⟨rfl, rfl, rfl⟩, hguard.1, hguard.2.1, hguard.2.2.1, hguard.2.2.2, rfl,
      by rw [if_neg hsame]⟩

/-- An action on a peer changes that peer, or takes it out of the table. -/
lemma onPeer_acts (hp : s.peers[i]? = some p) (hstep : onPeer kind s i p e = some (t, out)) :
    Same s t ∧ (Acts kind s i p t out ∨ (∃ k, e = .remove k) ∧ Removes s i p t) := by
  cases e with
  | subscribe k parts =>
      simp only [onPeer] at hstep
      split_ifs at hstep
      obtain ⟨rfl, rfl⟩ := Prod.ext_iff.1 (Option.some.inj hstep)
      exact ⟨⟨rfl, rfl, rfl⟩, .inl ⟨⟨_, rfl, subscription_effect parts p⟩, rfl⟩⟩
  | reply k written parts =>
      obtain ⟨rfl, rfl⟩ := Prod.ext_iff.1 (Option.some.inj hstep)
      exact ⟨⟨rfl, rfl, rfl⟩, .inl ⟨⟨_, rfl, enqueue_effect _ _ p⟩, rfl⟩⟩
  | heartbeat k command =>
      simp only [onPeer] at hstep
      split_ifs at hstep
      split at hstep
      · obtain ⟨rfl, rfl⟩ := Prod.ext_iff.1 (Option.some.inj hstep)
        exact ⟨⟨rfl, rfl, rfl⟩,
          .inl ⟨⟨p, set_same hp, .refl kind p fun h => by cases h⟩, rfl⟩⟩
      · obtain ⟨rfl, rfl⟩ := Prod.ext_iff.1 (Option.some.inj hstep)
        exact ⟨⟨rfl, rfl, rfl⟩,
          .inl ⟨⟨p, set_same hp, .refl kind p fun h => by cases h⟩, rfl⟩⟩
      · obtain ⟨rfl, rfl⟩ := Prod.ext_iff.1 (Option.some.inj hstep)
        exact ⟨⟨rfl, rfl, rfl⟩, .inl ⟨⟨_, rfl, enqueue_effect _ _ p⟩, rfl⟩⟩
  | request k parts =>
      simp only [onPeer] at hstep
      split_ifs at hstep
      split at hstep
      · obtain ⟨rfl, rfl⟩ := Prod.ext_iff.1 (Option.some.inj hstep)
        exact ⟨⟨rfl, rfl, rfl⟩, .inl ⟨⟨_, rfl, enqueue_effect _ _ p⟩, rfl⟩⟩
      · obtain ⟨rfl, rfl⟩ := Prod.ext_iff.1 (Option.some.inj hstep)
        exact ⟨⟨rfl, rfl, rfl⟩,
          .inl ⟨⟨p, set_same hp, .refl kind p fun h => by cases h⟩, rfl⟩⟩
  | advance k j =>
      simp only [onPeer] at hstep
      split at hstep
      · next v hv =>
        split_ifs at hstep with hstage
        obtain ⟨rfl, rfl⟩ := Prod.ext_iff.1 (Option.some.inj hstep)
        exact ⟨⟨rfl, rfl, rfl⟩, .inl ⟨⟨_, rfl, advanced_effect hv (advance_cases hstage)⟩, rfl⟩⟩
      · cases hstep
  | settle k j written =>
      simp only [onPeer] at hstep
      split at hstep
      · next v hv =>
        split_ifs at hstep with hstage
        obtain ⟨rfl, rfl⟩ := Prod.ext_iff.1 (Option.some.inj hstep)
        exact ⟨⟨rfl, rfl, rfl⟩, .inl ⟨⟨_, rfl, settle_effect hv hstage written⟩, rfl⟩⟩
      · cases hstep
  | receive k =>
      obtain ⟨q, hq, hrun⟩ := Option.map_eq_some_iff.1 hstep
      obtain ⟨rfl, rfl⟩ := Prod.ext_iff.1 hrun
      exact ⟨⟨rfl, rfl, rfl⟩, .inl ⟨⟨_, rfl, receive_effect hq⟩, rfl⟩⟩
  | written k =>
      simp only [onPeer] at hstep
      split_ifs at hstep
      obtain ⟨rfl, rfl⟩ := Prod.ext_iff.1 (Option.some.inj hstep)
      obtain ⟨hkeeps, hres, hsends, hqueue, -⟩ := dropCurrent_keeps p
      exact ⟨⟨rfl, rfl, rfl⟩, .inl ⟨⟨_, rfl, .plain hkeeps hres (fun h => h.dropCurrent) hsends
        (.inl hqueue) fun h => by cases h⟩, rfl⟩⟩
  | finish k =>
      simp only [onPeer] at hstep
      split_ifs at hstep
      obtain ⟨rfl, rfl⟩ := Prod.ext_iff.1 (Option.some.inj hstep)
      obtain ⟨⟨hid, hgen, hrem, hstop, -, hopen⟩, hres, hsends, hqueue, -⟩ := dropCurrent_keeps p
      refine ⟨⟨rfl, rfl, rfl⟩, .inl ⟨⟨_, rfl, .plain ⟨hid, hgen, hrem, hstop, ?_, hopen⟩ hres ?_
        hsends (.inl hqueue) fun h => by cases h⟩, rfl⟩⟩
      · intro h
        cases h
      · intro h
        exact h.dropCurrent.congr rfl rfl rfl rfl rfl fun hr => by cases hr
  | closeReceiver k =>
      simp only [onPeer] at hstep
      split_ifs at hstep with hrun
      obtain ⟨rfl, rfl⟩ := Prod.ext_iff.1 (Option.some.inj hstep)
      refine ⟨⟨rfl, rfl, rfl⟩, .inl ⟨⟨_, rfl, .plain ⟨rfl, rfl, rfl, id, id, ?_⟩ rfl ?_ rfl (.inl rfl)
        fun h => by cases h⟩, rfl⟩⟩
      · intro h
        cases h
      · intro h
        refine h.congr rfl rfl rfl rfl rfl fun hr => ?_
        rw [hrun] at hr
        cases hr
  | drain k =>
      obtain ⟨⟨q, global⟩, hq, hrun⟩ := Option.map_eq_some_iff.1 hstep
      obtain ⟨rfl, rfl⟩ := Prod.ext_iff.1 hrun
      exact ⟨⟨rfl, rfl, rfl⟩, .inl ⟨⟨_, rfl, drain_effect hq⟩, rfl⟩⟩
  | stop k =>
      simp only [onPeer] at hstep
      split_ifs at hstep
      obtain ⟨rfl, rfl⟩ := Prod.ext_iff.1 (Option.some.inj hstep)
      exact ⟨⟨rfl, rfl, rfl⟩, .inl ⟨⟨_, rfl, .plain ⟨rfl, rfl, rfl, fun _ => rfl, id, id⟩ rfl
        (fun h => h.congr rfl rfl rfl rfl rfl h.opened) rfl (.inl rfl) fun h => by cases h⟩, rfl⟩⟩
  | remove k =>
      obtain ⟨hsame, hremoves⟩ := onPeer_remove hstep
      exact ⟨hsame, .inr ⟨⟨k, rfl⟩, hremoves⟩⟩
  | _ => cases hstep

end Jupyter.Transport

end Rnx
