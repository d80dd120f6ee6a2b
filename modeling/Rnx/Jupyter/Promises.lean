import Rnx.Jupyter.Accounts

/-!
# Generations, credit and publication over every run

The promises of an endpoint, for every interleaving of admissions, ends of connections, replies,
publications, heartbeats and writes.
-/

namespace Rnx

namespace Jupyter.Transport

variable {kind : Kind} {s t : Endpoint} {e : Event} {out : Report} {p q : Peer} {i j : Nat}
  {P : Publishing} {stage : PublishStage} {l : List (Event × Report)}

/-! ## The record over a run -/

/-- The record of the publication in progress is that of its stage, and it visits the table. -/
def Recorded (l : List (Event × Report)) (s : Endpoint) : Prop :=
  ∀ P, s.publishing = some P → (account l).At P.stage ∧ (account l).order.Perm s.values

lemma record_other {a : Account} (hstep : e ≠ .publishStep) (hlock : ∀ k order, e ≠ .lock k order) :
    a.record (e, out) = a := by
  cases e with
  | lock k order => exact absurd rfl (hlock k order)
  | publishStep => exact absurd rfl hstep
  | _ => rfl

lemma record_order (a : Account) (out : Report) : (a.record (.publishStep, out)).order = a.order := by
  cases out <;> rfl

lemma connect_publishing (property : Option Bytes) :
    (connect kind property s).1.publishing = s.publishing := by
  unfold connect
  split
  · rfl
  · split_ifs
    · split
      · split_ifs
        · rfl
        · rfl
      · split
        · rfl
        · rfl
    · rfl

lemma Recorded.other (h : Recorded l s) (hstep : e ≠ .publishStep)
    (hlock : ∀ k order, e ≠ .lock k order) (hpub : t.publishing = s.publishing)
    (htable : s.publishing = none ∨ t.table = s.table) : Recorded (l ++ [(e, out)]) t := by
  intro P hP
  rw [hpub] at hP
  have htable : t.table = s.table := by
    obtain hnone | htable := htable
    · rw [hnone] at hP
      cases hP
    · exact htable
  rw [account_concat, record_other hstep hlock, Endpoint.values, htable]
  exact h P hP

/-- Every action extends the record. -/
lemma next_recorded (h : Recorded l s) (hstep : next kind s e = some (t, out)) :
    Recorded (l ++ [(e, out)]) t := by
  obtain ⟨i, p, hi, hp, hact⟩ | ⟨-, hact⟩ := next_cases hstep
  · have hne : e ≠ .publishStep := by
      rintro rfl
      cases hi
    have hlock : ∀ k order, e ≠ .lock k order := by
      rintro k order rfl
      cases hi
    obtain ⟨hsame, hacts | ⟨-, hremoves⟩⟩ := onPeer_acts hp hact
    · exact h.other hne hlock hsame.publishing (.inr hacts.table)
    · exact h.other hne hlock hsame.publishing (.inl hremoves.unlocked)
  · obtain ⟨rfl, hpublish⟩ | ⟨property, rfl, hpub, hrun⟩ | ⟨k, order, rfl, hlock, rfl⟩ |
      ⟨hne, hlock, -, htable, -, hpub⟩ := onEndpoint_cases hact
    · obtain ⟨P, hP, ⟨i, p, q, stage, hp, hv, -, hpub, htable, -⟩ |
        ⟨stage, hturn, -, hpub, htable, -⟩⟩ := publishStep_cases hpublish
      · intro P' hP'
        rw [hpub] at hP'
        obtain rfl := Option.some.inj hP'
        obtain ⟨hat, horder⟩ := h P hP
        rw [account_concat, Endpoint.values, htable]
        refine ⟨hv.account hat, ?_⟩
        rw [record_order]
        exact horder
      · intro P' hP'
        rw [hpub] at hP'
        cases stage with
        | none => cases hP'
        | some stage =>
            obtain rfl := Option.some.inj hP'
            obtain ⟨hat, horder⟩ := h P hP
            rw [account_concat, Endpoint.values, htable]
            refine ⟨hturn.account hat, ?_⟩
            rw [record_order]
            exact horder
    · obtain ⟨rfl, rfl⟩ := Prod.ext_iff.1 hrun
      exact h.other (fun h => by cases h) (fun k order h => by cases h)
        (connect_publishing property) (.inl hpub)
    · obtain ⟨-, hperm, wire, topic, -, rfl⟩ := lock_cases hlock
      intro P hP
      obtain rfl := Option.some.inj hP
      rw [account_concat]
      exact ⟨⟨fun j hj => .inl hj, fun j => Iff.rfl, rfl, rfl⟩, hperm⟩
    · exact h.other hne hlock hpub (.inr htable)

lemma new_recorded : Recorded [] .new := fun P hP => by cases hP

lemma run_recorded (hrun : (machine kind).Run .new l s) : Recorded l s :=
  hrun.history (fun _ _ _ _ _ h hstep => next_recorded h hstep) [] new_recorded

/-! ## What a run promises -/

/-- The connections of the endpoint and its table. -/
structure Identities (kind : Kind) (s : Endpoint) : Prop where
  live : ∀ (i j : Nat) (p q : Peer), s.peers[i]? = some p → s.peers[j]? = some q →
    p.removed = false → q.removed = false → p.id = q.id → i = j
  table : ∀ id i, s.table.lookup id = some i ↔
    ∃ p, s.peers[i]? = some p ∧ p.removed = false ∧ p.id = id
  generations : ∀ (i j : Nat) (p q : Peer), s.peers[i]? = some p → s.peers[j]? = some q →
    p.generation = q.generation → i = j
  removes : ∀ i t out, next kind s (.remove i) = some (t, out) → ∀ id j,
    t.table.lookup id = some j ↔ s.table.lookup id = some j ∧ j ≠ i

/-- What enters the channel of a connection: a packet of one of its own senders, or of the
publication in progress. -/
def Grows (s : Endpoint) (e : Event) (j : Nat) (p q : Peer) : Prop :=
  q.queue = p.queue ∨ q.queue = p.queue.tail ∨
    (∃ v ∈ p.sends, v.stage = .enter ∧ e.peer = some j ∧
      q.queue = p.queue ++ [⟨v.wire, v.origin == .replyWritten, v.held, 0⟩]) ∨
    ∃ P, s.publishing = some P ∧ e = .publishStep ∧
      q.queue = p.queue ++ [⟨P.wire, false, p.reserved, P.wire.capacity⟩]

/-- A reply concerns the connection its route was taken from, and is refused once that stopped. -/
structure Routes (kind : Kind) (s : Endpoint) : Prop where
  elsewhere : ∀ e t out i j, e.peer = some i → next kind s e = some (t, out) → j ≠ i →
    t.peers[j]? = s.peers[j]?
  grows : ∀ e t out (j : Nat) (p : Peer), next kind s e = some (t, out) → s.peers[j]? = some p →
    ∃ q, t.peers[j]? = some q ∧ q.id = p.id ∧ q.generation = p.generation ∧
      (p.stop = true → q.stop = true) ∧ Grows s e j p q
  refused : ∀ (i : Nat) (p : Peer) written parts t out, s.peers[i]? = some p → p.stop = true →
    next kind s (.reply i written parts) = some (t, out) → ∃ v error,
      t.peers[i]? = some { p with sends := v :: p.sends } ∧ v.stage = .refused error
  stopped : ∀ (i : Nat) (p : Peer) l t, s.peers[i]? = some p → p.stop = true →
    (machine kind).Run s l t → ∃ q, t.peers[i]? = some q ∧ q.stop = true ∧
      l.countP (replies i) + q.entering ≤ p.entering

/-- The credit of each peer is with its packets and its senders, and whoever has a count finds room
in the channel of a connection that runs. -/
structure Credits (kind : Kind) (s : Endpoint) : Prop where
  bytes : ∀ (i : Nat) (p : Peer), s.peers[i]? = some p →
    p.free.bytes + (p.packets.map (·.wire.capacity)).sum + p.underWay.bytes = kind.limit.bytes
  count : ∀ (i : Nat) (p : Peer), s.peers[i]? = some p →
    p.free.count + p.packets.length + p.underWay.count = kind.limit.count
  quiet : ∀ (i : Nat) (p : Peer), s.peers[i]? = some p → p.sends = [] → s.publishing = none →
    p.underWay = ⟨0, 0⟩
  room : ∀ (i j : Nat) (p : Peer) v t out, s.peers[i]? = some p → p.sends[j]? = some v →
    v.stage = .enter → p.running = true → next kind s (.advance i j) = some (t, out) →
    out = .queued i
  lost : ∀ i t, next kind s .publishStep = some (t, .lost i) → ∃ p, s.peers[i]? = some p ∧
    p.opened = false ∧ p.running = false

/-- What a report about the peer at `i` says of it. -/
def Means (s t : Endpoint) (P : Publishing) : Report → Prop
  | .skipped i => ∃ p, s.peers[i]? = some p ∧ p.stop = true
  | .unmatched i => ∃ p, s.peers[i]? = some p ∧ p.subscribed P.topic = false
  | .short i => ∃ p, s.peers[i]? = some p ∧ (p.free.bytes < P.wire.capacity ∨ p.free.count = 0)
  | .queued i => ∃ p q, s.peers[i]? = some p ∧ t.peers[i]? = some q ∧
      q.queue = p.queue ++ [⟨P.wire, false, p.reserved, P.wire.capacity⟩]
  | _ => True

/-- A publication that returns has entered the channel of every peer of the table but of those that
had stopped, had not subscribed, lacked credit or whose connection was over; or it failed and has
entered none. -/
structure Publishes (kind : Kind) (l : List (Event × Report)) (s : Endpoint) : Prop where
  means : ∀ P t out, s.publishing = some P → next kind s .publishStep = some (t, out) →
    Means s t P out
  runs : s.publishing ≠ none → ∃ t out, next kind s .publishStep = some (t, out)
  early : ∀ parts t out, next kind s (.publish parts) = some (t, out) → t.peers = s.peers
  failed : ∀ t error, next kind s .publishStep = some (t, .returned (.error error)) →
    (account l).queued = []
  done : ∀ t, next kind s .publishStep = some (t, .returned (.ok ())) →
    (∀ (i : Nat) (p : Peer), s.peers[i]? = some p → p.removed = false →
      i ∈ (account l).skipped ∨ i ∈ (account l).unmatched ∨ i ∈ (account l).short ∨
        i ∈ (account l).granted) ∧
    ∀ i, i ∈ (account l).granted ↔ i ∈ (account l).queued ∨ i ∈ (account l).lost

/-- What every run promises. -/
structure Delivers (kind : Kind) (l : List (Event × Report)) (s : Endpoint) : Prop where
  identities : Identities kind s
  routes : Routes kind s
  credits : Credits kind s
  publishes : Publishes kind l s

lemma Inv.identities (h : Inv kind s) : Identities kind s where
  live i j p q hp hq hrem hrem' hid := by
    have hi := (h.table p.id i).2 ⟨p, hp, hrem, rfl⟩
    have hj := (h.table p.id j).2 ⟨q, hq, hrem', hid.symm⟩
    rw [hi] at hj
    exact Option.some.inj hj
  table := h.table
  generations i j p q hp hq hgen := by
    rcases Nat.lt_trichotomy i j with hlt | heq | hgt
    · have := h.generations i j p q hp hq hlt
      omega
    · exact heq
    · have := h.generations j i q p hq hp hgt
      omega
  removes i t out hstep id j := by
    obtain ⟨k, p, hk, hp, hact⟩ | ⟨hnone, -⟩ := next_cases hstep
    · obtain rfl : i = k := Option.some.inj hk
      exact (onPeer_remove hact).2.lookup h hp id j
    · cases hnone

/-- An action on one peer leaves the others alone. -/
lemma onPeer_elsewhere (hp : s.peers[i]? = some p) (hact : onPeer kind s i p e = some (t, out))
    (hj : j ≠ i) : t.peers[j]? = s.peers[j]? := by
  obtain ⟨-, ⟨⟨q, hpeers, -⟩, -⟩ | ⟨-, hremoves⟩⟩ := onPeer_acts hp hact
  · rw [hpeers, List.getElem?_set_ne (Ne.symm hj)]
  · rw [hremoves.peers, List.getElem?_set_ne (Ne.symm hj)]

lemma Touches.grows (h : Touches s e j p q out) : Grows s e j p q := by
  cases h with
  | apart other same => exact .inl (by rw [same])
  | act own keeps queue =>
      obtain ⟨v, rfl, -⟩ | ⟨hqueue | hqueue, -⟩ | ⟨v, hv, hstage, -, -, hqueue, -⟩ := queue
      · exact .inl rfl
      · exact .inl hqueue
      · exact .inr (.inl hqueue)
      · exact .inr (.inr (.inl ⟨v, hv, hstage, own, hqueue⟩))
  | leave k own same => exact .inl (by rw [same])
  | publish P publishing own kind effect =>
      obtain ⟨hqueue, -⟩ | ⟨-, hqueue⟩ := effect.queue
      · exact .inl hqueue
      · exact .inr (.inr (.inr ⟨P, publishing, own, hqueue⟩))

lemma Inv.routes (h : Inv kind s) : Routes kind s where
  elsewhere e t out i j hpeer hstep hj := by
    obtain ⟨k, p, hk, hp, hact⟩ | ⟨hnone, -⟩ := next_cases hstep
    · rw [hpeer] at hk
      obtain rfl := Option.some.inj hk
      exact onPeer_elsewhere hp hact hj
    · rw [hpeer] at hnone
      cases hnone
  grows e t out j p hstep hp := by
    obtain ⟨q, hq, htouch⟩ := next_touches h hstep hp
    obtain ⟨hid, hgen, hstop⟩ := htouch.keeps
    exact ⟨q, hq, hid, hgen, hstop, htouch.grows⟩
  refused i p written parts t out hp hstop hstep := by
    obtain ⟨k, r, hk, hr, hact⟩ | ⟨hnone, -⟩ := next_cases hstep
    · obtain rfl : i = k := Option.some.inj hk
      rw [hp] at hr
      obtain rfl := Option.some.inj hr
      obtain ⟨rfl, -⟩ := Prod.ext_iff.1 (Option.some.inj hact)
      obtain ⟨v, hq, -, -, -, hrefused⟩ := enqueue_starts
        (if written = true then .replyWritten else .reply) (encode parts) p
      obtain ⟨error, hv⟩ := hrefused hstop
      exact ⟨v, error, by rw [← hq]; exact getElem?_set_self' hp, hv⟩
    · cases hnone
  stopped i p l t hp hstop hrun := run_stopped h hrun hp hstop

lemma Inv.credits (h : Inv kind s) : Credits kind s where
  bytes i p hp := (h.sound i p hp).bytes_eq
  count i p hp := (h.sound i p hp).length_le
  quiet i p hp hsends hpub := by
    have hres := h.reserved
    unfold Reserved at hres
    rw [hpub] at hres
    simp only [Peer.underWay, hsends, hres i p hp, List.map_nil, List.sum_nil]
  room i j p v t out hp hj hstage hrun hstep := by
    have hsound := h.sound i p hp
    have hroom : p.opened = true ∧ p.queue.length < channelCapacity :=
      ⟨hsound.opened hrun, hsound.room (hsound.enter_count hj hstage)⟩
    obtain ⟨k, r, hk, hr, hact⟩ | ⟨hnone, -⟩ := next_cases hstep
    · obtain rfl : i = k := Option.some.inj hk
      rw [hp] at hr
      obtain rfl := Option.some.inj hr
      simp only [onPeer, hj] at hact
      have hadv : (advance v p).2.2 = .queued := by
        simp only [advance, hstage, trySend_eq_some.2 ⟨hroom, rfl⟩]
        cases v.origin <;> rfl
      split_ifs at hact
      obtain ⟨-, rfl⟩ := Prod.ext_iff.1 (Option.some.inj hact)
      rw [hadv]
      rfl
    · cases hnone
  lost i t hstep := by
    obtain ⟨P, hP, ⟨k, p, q, stage, hp, hv, -⟩ | ⟨stage, hturn, -⟩⟩ := publishStep_cases hstep
    · have hsound := h.publishing hP
      have hholds := hsound.holds k p hp
      obtain ⟨wire, topic, st⟩ := P
      cases hv with
      | lose rest closed =>
          have hpsound := h.sound i p hp
          have hcount : 1 ≤ p.underWay.count := by
            have hres : p.reserved = ⟨wire.capacity, 1⟩ := by
              rw [hholds, held, if_pos List.mem_cons_self]
            simp only [Peer.underWay, hres]
            omega
          have hclosed : p.opened = false := by
            by_contra hne
            exact closed ⟨by simpa using hne, hpsound.room hcount⟩
          refine ⟨p, hp, hclosed, ?_⟩
          by_contra hne
          rw [hpsound.opened (by simpa using hne)] at hclosed
          cases hclosed
    · obtain ⟨wire, topic, st⟩ := P
      cases hturn

lemma target_mem (htarget : stage.target = some i) : i ∈ stage.places := by
  cases stage with
  | visit rest reserved =>
      obtain ⟨tail, rfl⟩ := List.head?_eq_some_iff.1 htarget
      exact List.mem_cons_self
  | globals left reserved => cases htarget
  | abort globals reserved =>
      cases globals with
      | zero =>
          obtain ⟨tail, rfl⟩ := List.head?_eq_some_iff.1 htarget
          exact List.mem_cons_self
      | succ globals => cases htarget
  | send rest =>
      obtain ⟨tail, rfl⟩ := List.head?_eq_some_iff.1 htarget
      exact List.mem_cons_self
  | _ =>
      obtain rfl := Option.some.inj htarget
      exact List.mem_cons_self

/-- A publication in progress has a next action. -/
lemma Inv.publishes_on (h : Inv kind s) (hpub : s.publishing ≠ none) :
    ∃ t out, Transport.publishStep s = some (t, out) := by
  obtain ⟨P, hP⟩ := Option.ne_none_iff_exists'.1 hpub
  unfold Transport.publishStep
  simp only [hP]
  cases htarget : P.stage.target with
  | none => exact ⟨_, _, rfl⟩
  | some i =>
      have hlt := (h.publishing hP).valid i (target_mem htarget)
      obtain ⟨p, hp⟩ : ∃ p, s.peers[i]? = some p := ⟨_, List.getElem?_eq_getElem hlt⟩
      simp only [hp, Option.map_some]
      exact ⟨_, _, rfl⟩

lemma publishStep_means (hP : s.publishing = some P) (hstep : publishStep s = some (t, out)) :
    Means s t P out := by
  obtain ⟨P', hP', ⟨i, p, q, stage, hp, hv, hpeers, -⟩ | ⟨stage, hturn, -⟩⟩ :=
    publishStep_cases hstep
  · rw [hP] at hP'
    obtain rfl := Option.some.inj hP'
    obtain ⟨wire, topic, st⟩ := P
    cases hv with
    | skip rest reserved stopped => exact ⟨p, hp, stopped⟩
    | mismatch rest reserved no => exact ⟨p, hp, by simpa using no⟩
    | noBytes rest reserved full => exact ⟨p, hp, .inl (by simpa using full)⟩
    | noCount got rest reserved full => exact ⟨p, hp, .inr (by omega)⟩
    | queue rest room => exact ⟨p, _, hp, by rw [hpeers]; exact getElem?_set_self' hp, rfl⟩
    | _ => exact trivial
  · obtain ⟨wire, topic, st⟩ := P'
    cases hturn <;> exact trivial

lemma Recorded.returned (h : Recorded l s) (hi : Inv kind s) {result : Except String Unit}
    (hstep : publishStep s = some (t, .returned result)) :
    (∀ error, result = .error error → (account l).queued = []) ∧ (result = .ok () →
      (∀ (i : Nat) (p : Peer), s.peers[i]? = some p → p.removed = false →
        i ∈ (account l).skipped ∨ i ∈ (account l).unmatched ∨ i ∈ (account l).short ∨
          i ∈ (account l).granted) ∧
      ∀ i, i ∈ (account l).granted ↔ i ∈ (account l).queued ∨ i ∈ (account l).lost) := by
  obtain ⟨P, hP, ⟨i, p, q, stage, hp, hv, -⟩ | ⟨stage, hturn, -⟩⟩ := publishStep_cases hstep
  · obtain ⟨wire, topic, st⟩ := P
    cases hv
  · obtain ⟨hat, horder⟩ := h P hP
    obtain ⟨wire, topic, st⟩ := P
    cases hturn with
    | failed => exact ⟨fun _ _ => hat.2.1, fun hok => by cases hok⟩
    | done =>
        refine ⟨(fun _ herror => by cases herror), fun _ => ⟨?_, ?_⟩⟩
        · intro i p hp hrem
          have hmem : i ∈ (account l).order :=
            horder.mem_iff.2 (hi.mem_values.2 ⟨p, hp, hrem⟩)
          exact (hat.1 i hmem).resolve_left List.not_mem_nil
        · intro i
          rw [hat.2 i]
          simp

lemma publish_peers (parts : List Bytes) (s : Endpoint) : (publish parts s).1.peers = s.peers := by
  unfold publish
  split
  · rfl
  · split_ifs
    · rfl
    · split
      · rfl
      · rfl

lemma Recorded.publishes (h : Recorded l s) (hi : Inv kind s) : Publishes kind l s where
  means P t out hP hstep := publishStep_means hP hstep
  runs hpub := hi.publishes_on hpub
  early parts t out hstep := by
    obtain ⟨i, p, hpeer, -⟩ | ⟨-, hact⟩ := next_cases hstep
    · cases hpeer
    · simp only [onEndpoint] at hact
      split_ifs at hact
      obtain ⟨rfl, -⟩ := Prod.ext_iff.1 (Option.some.inj hact)
      exact publish_peers parts s
  failed t error hstep := (h.returned hi hstep).1 error rfl
  done t hstep := (h.returned hi hstep).2 rfl

/-- **Connection generations and outgoing credit**, in every run of an endpoint. -/
theorem endpoint_delivers (hrun : (machine kind).Run .new l s) : Delivers kind l s := by
  have h := run_inv (new_inv kind) hrun
  exact ⟨h.identities, h.routes, h.credits, (run_recorded hrun).publishes h⟩

/-- A subscriber whose connection is over but has not left the table, and a publication that is
granted its credit. -/
def closingSteps : List (Event × Report) :=
  [(.connect none, .connected 0), (.subscribe 0 [[1]], .returned (.ok ())), (.finish 0, .quiet),
    (.closeReceiver 0, .quiet), (.publish [[7]], .quiet), (.lock 0 [0], .quiet),
    (.publishStep, .quiet), (.publishStep, .quiet), (.publishStep, .quiet),
    (.publishStep, .granted 0), (.publishStep, .quiet), (.publishStep, .quiet),
    (.publishStep, .quiet), (.publishStep, .lost 0)]

/-- The endpoint after them. -/
def closing : Endpoint where
  peers := [{ Peer.new .pub (generatedId 1) 1 with
    subs := AList.insert [] 1 ∅, running := false, opened := false }]
  table := AList.insert (generatedId 1) 0 ∅
  next := 2
  publication := 16 * mebi
  waiting := []
  publishing := some ⟨⟨[0, 1, 7], 10⟩, [7], .send []⟩
  shutdown := false

lemma closing_run : (machine .pub).Run .new closingSteps closing :=
  .cons rfl (.cons rfl (.cons rfl (.cons rfl (.cons rfl (.cons rfl (.cons rfl (.cons rfl (.cons rfl
    (.cons rfl (.cons rfl (.cons rfl (.cons rfl (.cons rfl (.nil _))))))))))))))

/-- The promises for a publication to a connection that is over. -/
theorem endpoint_delivers_closing : Delivers .pub closingSteps closing :=
  endpoint_delivers closing_run

/-- A reply that has taken its bytes and not its count. -/
def replyingSteps : List (Event × Report) :=
  [(.connect none, .connected 0), (.reply 0 false [[7]], .quiet), (.advance 0 0, .quiet)]

/-- The endpoint after them. -/
def replying : Endpoint where
  peers := [{ Peer.new .router (generatedId 1) 1 with
    free := ⟨mebi - 10, 32⟩
    sends := [⟨.reply, ⟨[0, 1, 7], 10⟩, .count, ⟨10, 0⟩⟩] }]
  table := AList.insert (generatedId 1) 0 ∅
  next := 2
  publication := 16 * mebi
  waiting := []
  publishing := none
  shutdown := false

/-- A reply that has its permits when the task of its connection unwinds. -/
def unwindingSteps : List (Event × Report) :=
  [(.connect none, .connected 0), (.reply 0 false [[7]], .quiet), (.advance 0 0, .quiet),
    (.advance 0 0, .quiet), (.finish 0, .quiet), (.stop 0, .quiet)]

/-- The endpoint after them. -/
def unwinding : Endpoint :=
  { replying with
    peers := [{ Peer.new .router (generatedId 1) 1 with
      free := ⟨mebi - 10, 31⟩
      sends := [⟨.reply, ⟨[0, 1, 7], 10⟩, .enter, ⟨10, 1⟩⟩]
      running := false
      stop := true }] }

/-- The spent credit of a peer is not always with its packets: a sender may have it.  A sender that
has it may enter the channel of a connection that has stopped meanwhile.  And a publication that
returns without an error has not always entered the channel of each peer it was granted the credit
of: the connection of one may be over. -/
theorem credit_not_with_packets :
    (¬ ∀ l s, (machine .router).Run .new l s → ∀ (i : Nat) (p : Peer), s.peers[i]? = some p →
      p.free.bytes + (p.packets.map (·.wire.capacity)).sum = Kind.router.limit.bytes) ∧
    (¬ ∀ l s, (machine .router).Run .new l s → ∀ (i j : Nat) (p : Peer) t,
      s.peers[i]? = some p → p.stop = true →
      next .router s (.advance i j) ≠ some (t, .queued i)) ∧
    ¬ ∀ l s t, (machine .pub).Run .new l s →
      next .pub s .publishStep = some (t, .returned (.ok ())) →
      ∀ i, i ∈ (account l).granted → i ∈ (account l).queued := by
  refine ⟨?_, ?_, ?_⟩
  · intro h
    have hsum := h replyingSteps replying (.cons rfl (.cons rfl (.cons rfl (.nil _)))) 0 _ rfl
    revert hsum
    decide
  · intro h
    have hrun : (machine .router).Run .new unwindingSteps unwinding :=
      .cons rfl (.cons rfl (.cons rfl (.cons rfl (.cons rfl (.cons rfl (.nil _))))))
    exact h unwindingSteps unwinding hrun 0 0 _ _ rfl rfl rfl
  · intro h
    have hqueued := h closingSteps closing { closing with publishing := none } closing_run rfl 0
      (by decide)
    revert hqueued
    decide

end Jupyter.Transport

end Rnx
