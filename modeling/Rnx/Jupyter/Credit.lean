import Mathlib.Algebra.Order.BigOperators.Group.List
import Rnx.Jupyter.Transport

/-!
# The credit of a peer is accounted for

The permits of a peer are free, with the packets of its queue and its writer, or with those who are
about to send to it; together they are always the limit.  Each packet holds the capacity of its wire
and one count, so a sender that has its count finds room in the channel.
-/

namespace Rnx

namespace Jupyter.Transport

variable {p q : Peer} {v : Send} {limit : Credit} {j n : Nat} {packet : Packet}

/-! ## Sums -/

lemma sum_eraseIdx {α : Type} {l : List α} {a : α} {j : Nat} (f : α → Nat) (h : l[j]? = some a) :
    (l.map f).sum = f a + ((l.eraseIdx j).map f).sum := by
  induction l generalizing j with
  | nil => cases h
  | cons b l ih =>
      cases j with
      | zero =>
          obtain rfl : b = a := Option.some.inj h
          simp
      | succ j =>
          have hrest := ih (j := j) h
          simp only [List.map_cons, List.sum_cons, List.eraseIdx_cons_succ]
          omega

/-! ## What is under way -/

/-- The packets of a peer: those of the channel and the one in the writer. -/
def Peer.packets (p : Peer) : List Packet := p.queue ++ p.current.toList

/-- The permits with those who are about to send. -/
def Peer.underWay (p : Peer) : Credit where
  bytes := (p.sends.map (·.held.bytes)).sum + p.reserved.bytes
  count := (p.sends.map (·.held.count)).sum + p.reserved.count

/-- All permits of a peer. -/
def Peer.total (p : Peer) : Credit where
  bytes := p.free.bytes + (p.packets.map (·.credit.bytes)).sum + p.underWay.bytes
  count := p.free.count + (p.packets.map (·.credit.count)).sum + p.underWay.count

/-- What a sender holds at each stage. -/
def Send.Sound (v : Send) : Prop :=
  match v.stage with
  | .bytes | .stopping _ | .waiting => v.held = ⟨0, 0⟩
  | .count => v.held = ⟨v.wire.capacity, 0⟩
  | .enter => v.held = ⟨v.wire.capacity, 1⟩
  | .refused _ => True

/-- What a packet holds. -/
def Packet.Sound (k : Packet) : Prop := k.credit = ⟨k.wire.capacity, 1⟩

/-- The permits of a peer are its limit, and each packet and sender holds what it should. -/
structure Peer.Sound (limit : Credit) (p : Peer) : Prop where
  total : p.total = limit
  packets : ∀ k ∈ p.packets, k.Sound
  sends : ∀ v ∈ p.sends, v.Sound
  opened : p.running = true → p.opened = true

lemma Peer.new_sound (kind : Kind) (id : Bytes) (generation : Nat) :
    (Peer.new kind id generation).Sound kind.limit where
  total := rfl
  packets k hk := by cases hk
  sends v hv := by cases hv
  opened _ := rfl

lemma total_eq_iff : p.total = limit ↔
    p.free.bytes + (p.packets.map (·.credit.bytes)).sum + p.underWay.bytes = limit.bytes ∧
      p.free.count + (p.packets.map (·.credit.count)).sum + p.underWay.count = limit.count := by
  cases limit
  simp only [Peer.total, Credit.mk.injEq]

/-- Nothing but the permits, the packets and the senders matters. -/
lemma Peer.Sound.congr (h : p.Sound limit) (hfree : q.free = p.free) (hqueue : q.queue = p.queue)
    (hcurrent : q.current = p.current) (hsends : q.sends = p.sends)
    (hreserved : q.reserved = p.reserved) (hopened : q.running = true → q.opened = true) :
    q.Sound limit := by
  have hpackets : q.packets = p.packets := by
    simp only [Peer.packets, hqueue, hcurrent]
  refine ⟨?_, hpackets ▸ h.packets, hsends ▸ h.sends, hopened⟩
  rw [← h.total]
  simp only [Peer.total, Peer.underWay, hfree, hpackets, hsends, hreserved]

/-! ## Taking permits -/

lemma takeBytes_eq_some : p.takeBytes n = some q ↔
    n ≤ p.free.bytes ∧ q = { p with free := ⟨p.free.bytes - n, p.free.count⟩ } := by
  unfold Peer.takeBytes
  split_ifs with h
  · simp [h, eq_comm]
  · simp [h]

lemma takeCount_eq_some : p.takeCount = some q ↔
    1 ≤ p.free.count ∧ q = { p with free := ⟨p.free.bytes, p.free.count - 1⟩ } := by
  unfold Peer.takeCount
  split_ifs with h
  · simp [h, eq_comm]
  · simp [h]

lemma trySend_eq_some : p.trySend packet = some q ↔
    (p.opened = true ∧ p.queue.length < channelCapacity) ∧
      q = { p with queue := p.queue ++ [packet] } := by
  unfold Peer.trySend
  split_ifs with h
  · simp [h, eq_comm]
  · simp [h]

/-! ## Senders -/

/-- A sender that goes on, or returns, with the permits it gives back or takes. -/
lemma Peer.Sound.resend {limit : Credit} (h : p.Sound limit) (hj : p.sends[j]? = some v)
    {w : Option Send} (free : Credit)
    (hbytes : free.bytes + (w.toList.map (·.held.bytes)).sum = p.free.bytes + v.held.bytes)
    (hcount : free.count + (w.toList.map (·.held.count)).sum = p.free.count + v.held.count)
    (hw : ∀ u, w = some u → u.Sound) :
    ({ p with free := free, sends := w.toList ++ p.sends.eraseIdx j } : Peer).Sound limit := by
  obtain ⟨hb, hc⟩ := total_eq_iff.1 h.total
  have hsumb := sum_eraseIdx (·.held.bytes) hj
  have hsumc := sum_eraseIdx (·.held.count) hj
  refine ⟨total_eq_iff.2 ⟨?_, ?_⟩, h.packets, ?_, h.opened⟩
  · simp only [Peer.packets, Peer.underWay, List.map_append, List.sum_append] at hb ⊢
    omega
  · simp only [Peer.packets, Peer.underWay, List.map_append, List.sum_append] at hc ⊢
    omega
  · intro u hu
    obtain hu | hu := List.mem_append.1 hu
    · exact hw u (Option.mem_toList.1 hu)
    · exact h.sends u (List.mem_of_mem_eraseIdx hu)

/-- A packet enters the channel with permits that a sender held. -/
lemma Peer.Sound.enter {limit : Credit} (h : p.Sound limit) (hj : p.sends[j]? = some v)
    {w : Option Send} (hpacket : packet.Sound) (hheld : packet.credit = v.held)
    (hw : ∀ u, w = some u → u.Sound ∧ u.held = ⟨0, 0⟩) :
    ({ p with queue := p.queue ++ [packet], sends := w.toList ++ p.sends.eraseIdx j } : Peer).Sound
      limit := by
  obtain ⟨hb, hc⟩ := total_eq_iff.1 h.total
  have hsumb := sum_eraseIdx (·.held.bytes) hj
  have hsumc := sum_eraseIdx (·.held.count) hj
  have hzero : (w.toList.map (·.held.bytes)).sum = 0 ∧ (w.toList.map (·.held.count)).sum = 0 := by
    cases w with
    | none => exact ⟨rfl, rfl⟩
    | some u => simp [(hw u rfl).2]
  refine ⟨total_eq_iff.2 ⟨?_, ?_⟩, ?_, ?_, h.opened⟩
  · simp only [Peer.packets, Peer.underWay, List.map_append, List.sum_append, List.map_cons,
      List.map_nil, List.sum_cons, List.sum_nil, hheld] at hb ⊢
    omega
  · simp only [Peer.packets, Peer.underWay, List.map_append, List.sum_append, List.map_cons,
      List.map_nil, List.sum_cons, List.sum_nil, hheld] at hc ⊢
    omega
  · intro k hk
    obtain hk | hk := List.mem_append.1 hk
    · obtain hk | hk := List.mem_append.1 hk
      · exact h.packets k (List.mem_append_left _ hk)
      · obtain rfl := List.mem_singleton.1 hk
        exact hpacket
    · exact h.packets k (List.mem_append_right _ hk)
  · intro u hu
    obtain hu | hu := List.mem_append.1 hu
    · exact (hw u (Option.mem_toList.1 hu)).1
    · exact h.sends u (List.mem_of_mem_eraseIdx hu)

/-- What a sender's action does to its peer: permits move, a packet enters the channel, or the peer
is stopped. -/
inductive Advanced (v : Send) (p : Peer) : Peer → Option Send → Sent → Prop
  | bytes (stage : v.stage = .bytes) (room : v.wire.capacity ≤ p.free.bytes) :
      Advanced v p { p with free := ⟨p.free.bytes - v.wire.capacity, p.free.count⟩ }
        (some { v with stage := .count, held := ⟨v.wire.capacity, 0⟩ }) .going
  | count (stage : v.stage = .count) (room : 1 ≤ p.free.count) :
      Advanced v p { p with free := ⟨p.free.bytes, p.free.count - 1⟩ }
        (some { v with stage := .enter, held := ⟨v.held.bytes, 1⟩ }) .going
  | enter (stage : v.stage = .enter) (room : p.opened = true ∧ p.queue.length < channelCapacity) :
      Advanced v p { p with queue := p.queue ++ [⟨v.wire, v.origin == .replyWritten, v.held, 0⟩] }
        (if v.origin = .replyWritten then some { v with stage := .waiting, held := ⟨0, 0⟩ } else none)
        .queued
  | refuse (error : String) (busy : v.stage = .bytes ∨ v.stage = .count ∨
        v.stage = .enter ∧ ¬ (p.opened = true ∧ p.queue.length < channelCapacity)) :
      Advanced v p p (some { v with stage := .refused error }) .going
  | leave (error : String) (stage : v.stage = .refused error) (own : v.origin = .own) :
      Advanced v p (p.release v.held) none (.returned (.error error))
  | release (error : String) (stage : v.stage = .refused error) (route : v.origin ≠ .own) :
      Advanced v p (p.release v.held)
        (some { v with stage := .stopping error, held := ⟨0, 0⟩ }) .going
  | stop (error : String) (stage : v.stage = .stopping error) :
      Advanced v p { p with stop := true } none (.returned (.error error))

lemma advance_cases (hstage : v.stage ≠ .waiting) :
    Advanced v p (advance v p).1 (advance v p).2.1 (advance v p).2.2 := by
  obtain ⟨origin, wire, stage, held⟩ := v
  unfold advance
  cases stage with
  | bytes =>
      cases ht : p.takeBytes wire.capacity with
      | some q =>
          obtain ⟨hroom, rfl⟩ := takeBytes_eq_some.1 ht
          simp only
          exact .bytes rfl hroom
      | none =>
          simp only
          exact .refuse _ (.inl rfl)
  | count =>
      cases ht : p.takeCount with
      | some q =>
          obtain ⟨hroom, rfl⟩ := takeCount_eq_some.1 ht
          simp only
          exact .count rfl hroom
      | none =>
          simp only
          exact .refuse _ (.inr (.inl rfl))
  | enter =>
      cases ht : p.trySend ⟨wire, origin == .replyWritten, held, 0⟩ with
      | some q =>
          obtain ⟨hroom, rfl⟩ := trySend_eq_some.1 ht
          simp only
          cases origin with
          | reply => exact .enter rfl hroom
          | replyWritten => exact .enter rfl hroom
          | own => exact .enter rfl hroom
      | none =>
          simp only
          refine .refuse _ (.inr (.inr ⟨rfl, fun hroom => ?_⟩))
          rw [trySend_eq_some.2 ⟨hroom, rfl⟩] at ht
          cases ht
  | refused error =>
      cases origin with
      | own => exact .leave error rfl rfl
      | reply => exact .release error rfl fun h => by cases h
      | replyWritten => exact .release error rfl fun h => by cases h
  | stopping error => exact .stop error rfl
  | waiting => exact absurd rfl hstage

/-- A sender's action keeps the credit of its peer. -/
lemma Peer.Sound.advance {w : Option Send} {sent : Sent} (h : p.Sound limit)
    (hj : p.sends[j]? = some v) (hadv : Advanced v p q w sent) :
    ({ q with sends := w.toList ++ p.sends.eraseIdx j } : Peer).Sound limit := by
  have hv := h.sends v (List.mem_of_getElem? hj)
  cases hadv with
  | bytes stage room =>
      simp only [Send.Sound, stage] at hv
      refine h.resend hj _ ?_ ?_ ?_
      · simp only [Option.toList_some, List.map_cons, List.map_nil, List.sum_cons, List.sum_nil, hv]
        omega
      · simp [hv]
      · intro u hu
        obtain rfl := Option.some.inj hu
        exact rfl
  | count stage room =>
      simp only [Send.Sound, stage] at hv
      refine h.resend hj _ ?_ ?_ ?_
      · simp
      · simp only [Option.toList_some, List.map_cons, List.map_nil, List.sum_cons, List.sum_nil, hv]
        omega
      · intro u hu
        obtain rfl := Option.some.inj hu
        simp [Send.Sound, hv]
  | enter stage room =>
      simp only [Send.Sound, stage] at hv
      refine h.enter hj ?_ rfl ?_
      · exact hv
      · intro u hu
        split_ifs at hu
        obtain rfl := Option.some.inj hu
        exact ⟨rfl, rfl⟩
  | refuse error busy =>
      refine h.resend hj p.free ?_ ?_ ?_
      · simp
      · simp
      · intro u hu
        obtain rfl := Option.some.inj hu
        exact trivial
  | leave error stage own =>
      refine h.resend hj (p.release v.held).free ?_ ?_ ?_
      · simp [Peer.release]
      · simp [Peer.release]
      · intro u hu
        cases hu
  | release error stage route =>
      refine h.resend hj (p.release v.held).free ?_ ?_ ?_
      · simp [Peer.release]
      · simp [Peer.release]
      · intro u hu
        obtain rfl := Option.some.inj hu
        exact rfl
  | stop error stage =>
      simp only [Send.Sound, stage] at hv
      have hgone := h.resend hj (w := none) p.free (by simp [hv]) (by simp [hv])
        fun u hu => by cases hu
      exact hgone.congr rfl rfl rfl rfl rfl h.opened

lemma Peer.Sound.settle (h : p.Sound limit) (hj : p.sends[j]? = some v)
    (hstage : v.stage = .waiting) (written : Except String Unit) :
    ({ p with sends := (Transport.settle v written).1.toList ++ p.sends.eraseIdx j } : Peer).Sound
      limit := by
  have hv := h.sends v (List.mem_of_getElem? hj)
  simp only [Send.Sound, hstage] at hv
  unfold Transport.settle
  cases written with
  | ok u =>
      refine h.resend hj (w := none) p.free ?_ ?_ fun u hu => by cases hu
      · simp [hv]
      · simp [hv]
  | error error =>
      refine h.resend hj (w := some _) p.free ?_ ?_ ?_
      · simp
      · simp
      · intro u hu
        obtain rfl := Option.some.inj hu
        exact hv

lemma enqueue_sound (origin : Origin) (wire : Except String Wire) (p : Peer) :
    (enqueue origin wire p).Sound ∧ (enqueue origin wire p).held = ⟨0, 0⟩ := by
  unfold enqueue
  cases wire with
  | error error => exact ⟨trivial, rfl⟩
  | ok wire =>
      split_ifs
      · exact ⟨trivial, rfl⟩
      · exact ⟨rfl, rfl⟩

lemma Peer.Sound.start (h : p.Sound limit) (hv : v.Sound) (hheld : v.held = ⟨0, 0⟩) :
    ({ p with sends := v :: p.sends } : Peer).Sound limit := by
  obtain ⟨hb, hc⟩ := total_eq_iff.1 h.total
  refine ⟨total_eq_iff.2 ⟨?_, ?_⟩, h.packets, ?_, h.opened⟩
  · simp only [Peer.packets, Peer.underWay, List.map_cons, List.sum_cons, hheld] at hb ⊢
    omega
  · simp only [Peer.packets, Peer.underWay, List.map_cons, List.sum_cons, hheld] at hc ⊢
    omega
  · intro u hu
    obtain rfl | hu := List.mem_cons.1 hu
    · exact hv
    · exact h.sends u hu

/-! ## The connection -/

lemma Peer.Sound.receive (h : p.Sound limit) (hq : p.receive = some q) : q.Sound limit := by
  obtain ⟨hb, hc⟩ := total_eq_iff.1 h.total
  unfold Peer.receive at hq
  split at hq
  · next packet rest hcurrent hqueue =>
    split_ifs at hq
    obtain rfl := Option.some.inj hq
    refine ⟨total_eq_iff.2 ⟨?_, ?_⟩, ?_, h.sends, h.opened⟩
    · simp only [Peer.packets, Peer.underWay, hqueue, hcurrent, List.map_append, List.sum_append,
        List.map_cons, List.map_nil, List.sum_cons, List.sum_nil, Option.toList_some,
        Option.toList_none] at hb ⊢
      omega
    · simp only [Peer.packets, Peer.underWay, hqueue, hcurrent, List.map_append, List.sum_append,
        List.map_cons, List.map_nil, List.sum_cons, List.sum_nil, Option.toList_some,
        Option.toList_none] at hc ⊢
      omega
    · intro k hk
      apply h.packets
      simp only [Peer.packets, hqueue, hcurrent, Option.toList_some, Option.toList_none,
        List.mem_append, List.mem_cons, List.not_mem_nil, or_false] at hk ⊢
      exact hk.symm
  · cases hq

lemma Peer.Sound.dropCurrent (h : p.Sound limit) : p.dropCurrent.1.Sound limit := by
  unfold Peer.dropCurrent
  obtain ⟨hb, hc⟩ := total_eq_iff.1 h.total
  cases hcurrent : p.current with
  | none => exact h
  | some packet =>
      refine ⟨total_eq_iff.2 ⟨?_, ?_⟩, ?_, h.sends, h.opened⟩
      · simp only [Peer.packets, Peer.underWay, Peer.release, hcurrent, List.map_append,
          List.sum_append, List.map_cons, List.map_nil, List.sum_cons, List.sum_nil,
          Option.toList_some, Option.toList_none] at hb ⊢
        omega
      · simp only [Peer.packets, Peer.underWay, Peer.release, hcurrent, List.map_append,
          List.sum_append, List.map_cons, List.map_nil, List.sum_cons, List.sum_nil,
          Option.toList_some, Option.toList_none] at hc ⊢
        omega
      · intro k hk
        apply h.packets
        obtain hk | hk := List.mem_append.1 hk
        · exact List.mem_append_left _ hk
        · cases hk

lemma Peer.Sound.drain {global : Nat} (h : p.Sound limit) (hq : p.drain = some (q, global)) :
    q.Sound limit := by
  obtain ⟨hb, hc⟩ := total_eq_iff.1 h.total
  unfold Peer.drain at hq
  split at hq
  · next packet rest hqueue =>
    split_ifs at hq
    obtain ⟨rfl, -⟩ := Prod.ext_iff.1 (Option.some.inj hq)
    refine ⟨total_eq_iff.2 ⟨?_, ?_⟩, ?_, h.sends, h.opened⟩
    · simp only [Peer.packets, Peer.underWay, Peer.release, hqueue, List.cons_append,
        List.map_cons, List.sum_cons] at hb ⊢
      omega
    · simp only [Peer.packets, Peer.underWay, Peer.release, hqueue, List.cons_append,
        List.map_cons, List.sum_cons] at hc ⊢
      omega
    · intro k hk
      apply h.packets
      simp only [Peer.packets, hqueue, List.cons_append, List.mem_cons]
      exact .inr hk
  · cases hq

/-! ## The permits of a publication -/

/-- A publication takes permits of a peer, or gives back what it has. -/
lemma Peer.Sound.reserve (h : p.Sound limit) (free reserved : Credit)
    (hbytes : free.bytes + reserved.bytes = p.free.bytes + p.reserved.bytes)
    (hcount : free.count + reserved.count = p.free.count + p.reserved.count) :
    ({ p with free := free, reserved := reserved } : Peer).Sound limit := by
  obtain ⟨hb, hc⟩ := total_eq_iff.1 h.total
  refine ⟨total_eq_iff.2 ⟨?_, ?_⟩, h.packets, h.sends, h.opened⟩
  · simp only [Peer.packets, Peer.underWay] at hb ⊢
    omega
  · simp only [Peer.packets, Peer.underWay] at hc ⊢
    omega

lemma Peer.Sound.unreserve (h : p.Sound limit) : p.unreserve.Sound limit :=
  h.reserve _ _ rfl rfl

/-- Its packet enters the channel. -/
lemma Peer.Sound.publish (h : p.Sound limit) (hpacket : packet.Sound)
    (hheld : packet.credit = p.reserved) :
    ({ p with queue := p.queue ++ [packet], reserved := ⟨0, 0⟩ } : Peer).Sound limit := by
  obtain ⟨hb, hc⟩ := total_eq_iff.1 h.total
  refine ⟨total_eq_iff.2 ⟨?_, ?_⟩, ?_, h.sends, h.opened⟩
  · simp only [Peer.packets, Peer.underWay, List.map_append, List.sum_append, List.map_cons,
      List.map_nil, List.sum_cons, List.sum_nil, hheld] at hb ⊢
    omega
  · simp only [Peer.packets, Peer.underWay, List.map_append, List.sum_append, List.map_cons,
      List.map_nil, List.sum_cons, List.sum_nil, hheld] at hc ⊢
    omega
  · intro k hk
    obtain hk | hk := List.mem_append.1 hk
    · obtain hk | hk := List.mem_append.1 hk
      · exact h.packets k (List.mem_append_left _ hk)
      · obtain rfl := List.mem_singleton.1 hk
        exact hpacket
    · exact h.packets k (List.mem_append_right _ hk)

/-! ## Room in the channel -/

/-- The packets under way are no more than the counts that are not free. -/
lemma Peer.Sound.length_le (h : p.Sound limit) :
    p.free.count + p.packets.length + p.underWay.count = limit.count := by
  have hlength : (p.packets.map (·.credit.count)).sum = p.packets.length := by
    have hone : p.packets.map (·.credit.count) = p.packets.map fun _ => 1 := by
      apply List.map_congr_left
      intro k hk
      rw [h.packets k hk]
    rw [hone]
    simp
  rw [← (total_eq_iff.1 h.total).2, hlength]

/-- The bytes under way are the capacities of the packets. -/
lemma Peer.Sound.bytes_eq (h : p.Sound limit) :
    p.free.bytes + (p.packets.map (·.wire.capacity)).sum + p.underWay.bytes = limit.bytes := by
  have hsame : p.packets.map (·.credit.bytes) = p.packets.map (·.wire.capacity) := by
    apply List.map_congr_left
    intro k hk
    rw [h.packets k hk]
  rw [← (total_eq_iff.1 h.total).1, hsame]

lemma Kind.limit_count (kind : Kind) : kind.limit.count ≤ channelCapacity := by
  cases kind <;> decide

/-- With a count under way there is room in the channel. -/
lemma Peer.Sound.room {kind : Kind} (h : p.Sound kind.limit) (hcount : 1 ≤ p.underWay.count) :
    p.queue.length < channelCapacity := by
  have hsum := h.length_le
  have hle := kind.limit_count
  have hqueue : p.queue.length ≤ p.packets.length := by
    rw [Peer.packets, List.length_append]
    exact Nat.le_add_right _ _
  omega

/-- A sender at the channel has its count under way. -/
lemma Peer.Sound.enter_count (h : p.Sound limit) (hj : p.sends[j]? = some v)
    (hstage : v.stage = .enter) : 1 ≤ p.underWay.count := by
  have hv := h.sends v (List.mem_of_getElem? hj)
  simp only [Send.Sound, hstage] at hv
  have hsum := sum_eraseIdx (·.held.count) hj
  simp only [Peer.underWay, hsum, hv]
  omega

end Jupyter.Transport

end Rnx
