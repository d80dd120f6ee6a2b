import Rnx.Jupyter.Publishing

/-!
# Connection generations and outgoing credit

What every run of an endpoint promises.  A connection is in the table from its admission until its
own end takes it out; a reply enters the channel of the connection its route was taken from, or
none; what a peer has under way is within its limits, so there is room for whoever has a count; and
a publication that returns enters the channels of the peers it was granted credit of, but of those
whose connection is over.
-/

namespace Rnx

namespace Jupyter.Transport

variable {kind : Kind} {s t u : Endpoint} {e : Event} {out : Report} {p q : Peer} {i j n : Nat}
  {P : Publishing} {stage : PublishStage} {l l' : List (Event × Report)}

/-! ## The invariant -/

/-- The permits of the publication in progress. -/
def Reserved (s : Endpoint) : Prop :=
  match s.publishing with
  | none => ∀ (i : Nat) (p : Peer), s.peers[i]? = some p → p.reserved = ⟨0, 0⟩
  | some P => P.Sound s.peers

/-- The table, the generations and the permits. -/
structure Inv (kind : Kind) (s : Endpoint) : Prop where
  sound : ∀ (i : Nat) (p : Peer), s.peers[i]? = some p → p.Sound kind.limit
  table : ∀ id i, s.table.lookup id = some i ↔
    ∃ p, s.peers[i]? = some p ∧ p.removed = false ∧ p.id = id
  generations : ∀ (i j : Nat) (p q : Peer), s.peers[i]? = some p → s.peers[j]? = some q → i < j →
    p.generation < q.generation
  below : ∀ (i : Nat) (p : Peer), s.peers[i]? = some p → p.generation < s.next
  ended : ∀ (i : Nat) (p : Peer), s.peers[i]? = some p → p.removed = true →
    p.running = false ∧ p.stop = true
  reserved : Reserved s

lemma new_inv (kind : Kind) : Inv kind .new where
  sound i p hp := by simp [Endpoint.new] at hp
  table id i := by simp [Endpoint.new]
  generations i j p q hp := by simp [Endpoint.new] at hp
  below i p hp := by simp [Endpoint.new] at hp
  ended i p hp := by simp [Endpoint.new] at hp
  reserved i p hp := by simp [Endpoint.new] at hp

lemma getElem?_set_cases {r : Peer} (hp : (s.peers.set i q)[j]? = some r) :
    j = i ∧ r = q ∨ j ≠ i ∧ s.peers[j]? = some r := by
  rw [List.getElem?_set] at hp
  split_ifs at hp with hij hlt
  · exact .inl ⟨hij.symm, (Option.some.inj hp).symm⟩
  · exact .inr ⟨Ne.symm hij, hp⟩

lemma getElem?_set_self' (hp : s.peers[i]? = some p) : (s.peers.set i q)[i]? = some q := by
  rw [List.getElem?_set_self (List.getElem?_eq_some_iff.1 hp).1]

/-- An action on the peer at `i` that leaves the table alone. -/
lemma Inv.act (h : Inv kind s) (hp : s.peers[i]? = some p) (hk : Keeps p q)
    (hq : p.Sound kind.limit → q.Sound kind.limit) (hpeers : t.peers = s.peers.set i q)
    (htable : t.table = s.table) (hnext : t.next = s.next) (hreserved : Reserved t) :
    Inv kind t := by
  have hback : ∀ (j : Nat) (r : Peer), t.peers[j]? = some r →
      ∃ r', s.peers[j]? = some r' ∧ Keeps r' r ∧ (r'.Sound kind.limit → r.Sound kind.limit) := by
    intro j r hr
    rw [hpeers] at hr
    obtain ⟨rfl, rfl⟩ | ⟨-, hr⟩ := getElem?_set_cases hr
    · exact ⟨p, hp, hk, hq⟩
    · exact ⟨r, hr, .refl r, id⟩
  have hforth : ∀ (j : Nat) (r : Peer), s.peers[j]? = some r →
      ∃ r', t.peers[j]? = some r' ∧ Keeps r r' := by
    intro j r hr
    rw [hpeers]
    by_cases hj : j = i
    · subst hj
      rw [hp] at hr
      obtain rfl := Option.some.inj hr
      exact ⟨q, getElem?_set_self' hp, hk⟩
    · exact ⟨r, by rw [List.getElem?_set_ne (Ne.symm hj), hr], .refl r⟩
  constructor
  · intro j r hr
    obtain ⟨r', hr', -, hsound⟩ := hback j r hr
    exact hsound (h.sound j r' hr')
  · intro id j
    rw [htable, h.table]
    constructor
    · rintro ⟨r, hr, hrem, hid⟩
      obtain ⟨r', hr', hkeep⟩ := hforth j r hr
      exact ⟨r', hr', hkeep.removed.trans hrem, hkeep.id.trans hid⟩
    · rintro ⟨r, hr, hrem, hid⟩
      obtain ⟨r', hr', hkeep, -⟩ := hback j r hr
      exact ⟨r', hr', hkeep.removed.symm.trans hrem, hkeep.id.symm.trans hid⟩
  · intro j k r r' hr hr' hlt
    obtain ⟨a, ha, hka, -⟩ := hback j r hr
    obtain ⟨b, hb, hkb, -⟩ := hback k r' hr'
    rw [hka.generation, hkb.generation]
    exact h.generations j k a b ha hb hlt
  · intro j r hr
    obtain ⟨a, ha, hka, -⟩ := hback j r hr
    rw [hka.generation, hnext]
    exact h.below j a ha
  · intro j r hr hrem
    obtain ⟨a, ha, hka, -⟩ := hback j r hr
    obtain ⟨hrun, hstop⟩ := h.ended j a ha (hka.removed.symm.trans hrem)
    refine ⟨?_, hka.stop hstop⟩
    by_contra hne
    rw [hka.running (by simpa using hne)] at hrun
    cases hrun
  · exact hreserved

/-- An action that leaves the permits of the publication alone. -/
lemma Reserved.act (h : Reserved s) (hp : s.peers[i]? = some p) (hres : q.reserved = p.reserved)
    (hpeers : t.peers = s.peers.set i q) (hpub : t.publishing = s.publishing) : Reserved t := by
  unfold Reserved at h ⊢
  rw [hpub, hpeers]
  cases hP : s.publishing with
  | none =>
      rw [hP] at h
      intro j r hr
      obtain ⟨rfl, rfl⟩ | ⟨-, hr⟩ := getElem?_set_cases hr
      · exact hres.trans (h j p hp)
      · exact h j r hr
  | some P =>
      rw [hP] at h
      exact h.set (fun k hk => hk) h.nodup (hres ▸ h.holds i p hp) fun j c _ hc => hc

lemma Inv.acts (h : Inv kind s) (hp : s.peers[i]? = some p) (hsame : Same s t)
    (hacts : Acts kind s i p t out) : Inv kind t := by
  obtain ⟨⟨q, hpeers, heffect⟩, htable⟩ := hacts
  exact h.act hp heffect.keeps heffect.sound hpeers htable hsame.next
    (h.reserved.act hp heffect.reserved hpeers hsame.publishing)

/-! ## Leaving the table -/

/-- A connection that leaves the table takes out its own entry. -/
lemma Removes.lookup (h : Inv kind s) (hp : s.peers[i]? = some p) (hr : Removes s i p t)
    (id : Bytes) (j : Nat) :
    t.table.lookup id = some j ↔ s.table.lookup id = some j ∧ j ≠ i := by
  have hown : s.table.lookup p.id = some i := (h.table p.id i).2 ⟨p, hp, hr.present, rfl⟩
  have htable : t.table = s.table.erase p.id := by
    rw [hr.table, if_pos]
    simp only [hown, Option.bind_some, hp, Option.map_some]
  rw [htable]
  by_cases hid : id = p.id
  · subst hid
    rw [AList.lookup_erase, hown]
    constructor
    · intro hnone
      cases hnone
    · rintro ⟨hsome, hne⟩
      exact absurd (Option.some.inj hsome).symm hne
  · rw [AList.lookup_erase_ne hid]
    refine ⟨fun hsome => ⟨hsome, ?_⟩, And.left⟩
    rintro rfl
    obtain ⟨r, hr', -, hrid⟩ := (h.table id j).1 hsome
    rw [hp] at hr'
    obtain rfl := Option.some.inj hr'
    exact hid hrid.symm

lemma Inv.removes (h : Inv kind s) (hp : s.peers[i]? = some p) (hsame : Same s t)
    (hr : Removes s i p t) : Inv kind t := by
  have hback : ∀ (j : Nat) (r : Peer), t.peers[j]? = some r →
      ∃ r', s.peers[j]? = some r' ∧ r.generation = r'.generation := by
    intro j r hr'
    rw [hr.peers] at hr'
    obtain ⟨rfl, rfl⟩ | ⟨-, hr'⟩ := getElem?_set_cases hr'
    · exact ⟨p, hp, rfl⟩
    · exact ⟨r, hr', rfl⟩
  constructor
  · intro j r hr'
    rw [hr.peers] at hr'
    obtain ⟨rfl, rfl⟩ | ⟨-, hr'⟩ := getElem?_set_cases hr'
    · have hsound := h.sound j p hp
      exact hsound.congr rfl rfl rfl rfl rfl hsound.opened
    · exact h.sound j r hr'
  · intro id j
    rw [hr.lookup h hp, h.table, hr.peers]
    constructor
    · rintro ⟨⟨r, hr', hrem, hid⟩, hne⟩
      exact ⟨r, by rw [List.getElem?_set_ne (Ne.symm hne), hr'], hrem, hid⟩
    · rintro ⟨r, hr', hrem, hid⟩
      obtain ⟨rfl, rfl⟩ | ⟨hne, hr'⟩ := getElem?_set_cases hr'
      · cases hrem
      · exact ⟨⟨r, hr', hrem, hid⟩, hne⟩
  · intro j k a b ha hb hlt
    obtain ⟨a', ha', hga⟩ := hback j a ha
    obtain ⟨b', hb', hgb⟩ := hback k b hb
    rw [hga, hgb]
    exact h.generations j k a' b' ha' hb' hlt
  · intro j a ha
    obtain ⟨a', ha', hga⟩ := hback j a ha
    rw [hga, hsame.next]
    exact h.below j a' ha'
  · intro j a ha hrem
    rw [hr.peers] at ha
    obtain ⟨rfl, rfl⟩ | ⟨-, ha⟩ := getElem?_set_cases ha
    · exact ⟨hr.ended, hr.stopped⟩
    · exact h.ended j a ha hrem
  · exact h.reserved.act hp (q := { p with removed := true }) rfl hr.peers hsame.publishing

/-! ## Admission -/

lemma getElem?_concat_cases {r : Peer} {l : List Peer} (hp : (l ++ [q])[j]? = some r) :
    l[j]? = some r ∨ j = l.length ∧ r = q := by
  rcases Nat.lt_trichotomy j l.length with hlt | rfl | hgt
  · rw [List.getElem?_append_left hlt] at hp
    exact .inl hp
  · rw [List.getElem?_concat_length] at hp
    exact .inr ⟨rfl, (Option.some.inj hp).symm⟩
  · rw [List.getElem?_eq_none (by rw [List.length_append]; exact hgt)] at hp
    cases hp

lemma Inv.admitPeer (h : Inv kind s) (hpub : s.publishing = none) {id : Bytes} {generation : Nat}
    (hid : id ∉ s.table) (hgen : s.next ≤ generation) :
    Inv kind (admitPeer kind id generation s).1 := by
  have hold : ∀ {j : Nat} {r : Peer}, s.peers[j]? = some r → j < s.peers.length :=
    fun hr => (List.getElem?_eq_some_iff.1 hr).1
  have hkeep : ∀ {j : Nat} {r : Peer}, s.peers[j]? = some r →
      (s.peers ++ [Peer.new kind id generation])[j]? = some r :=
    fun hr => by rw [List.getElem?_append_left (hold hr), hr]
  constructor
  · intro j r hr
    obtain hr | ⟨-, rfl⟩ := getElem?_concat_cases hr
    · exact h.sound j r hr
    · exact Peer.new_sound kind id generation
  · intro id' j
    change (s.table.insert id s.peers.length).lookup id' = some j ↔ _
    by_cases hsame : id' = id
    · subst hsame
      rw [AList.lookup_insert]
      constructor
      · intro hj
        obtain rfl := Option.some.inj hj
        exact ⟨_, List.getElem?_concat_length, rfl, rfl⟩
      · rintro ⟨r, hr, hrem, hrid⟩
        obtain hr | ⟨rfl, -⟩ := getElem?_concat_cases hr
        · have := (h.table id' j).2 ⟨r, hr, hrem, hrid⟩
          rw [AList.lookup_eq_none.2 hid] at this
          cases this
        · rfl
    · rw [AList.lookup_insert_ne hsame, h.table]
      constructor
      · rintro ⟨r, hr, hrem, hrid⟩
        exact ⟨r, hkeep hr, hrem, hrid⟩
      · rintro ⟨r, hr, hrem, hrid⟩
        obtain hr | ⟨-, rfl⟩ := getElem?_concat_cases hr
        · exact ⟨r, hr, hrem, hrid⟩
        · exact absurd hrid.symm hsame
  · intro j k a b ha hb hlt
    obtain ha | ⟨rfl, rfl⟩ := getElem?_concat_cases ha
    · obtain hb | ⟨-, rfl⟩ := getElem?_concat_cases hb
      · exact h.generations j k a b ha hb hlt
      · exact Nat.lt_of_lt_of_le (h.below j a ha) hgen
    · obtain hb | ⟨rfl, -⟩ := getElem?_concat_cases hb
      · exact absurd (hold hb) (by omega)
      · exact absurd hlt (Nat.lt_irrefl _)
  · intro j a ha
    change a.generation < generation + 1
    obtain ha | ⟨-, rfl⟩ := getElem?_concat_cases ha
    · have := h.below j a ha
      omega
    · exact Nat.lt_succ_self _
  · intro j a ha hrem
    obtain ha | ⟨-, rfl⟩ := getElem?_concat_cases ha
    · exact h.ended j a ha hrem
    · cases hrem
  · have hres := h.reserved
    unfold Reserved at hres ⊢
    rw [hpub] at hres
    change match s.publishing with
      | none => ∀ (i : Nat) (p : Peer),
          (s.peers ++ [Peer.new kind id generation])[i]? = some p → p.reserved = ⟨0, 0⟩
      | some P => P.Sound (s.peers ++ [Peer.new kind id generation])
    rw [hpub]
    intro j a ha
    obtain ha | ⟨-, rfl⟩ := getElem?_concat_cases ha
    · exact hres j a ha
    · rfl

/-- Another value of the generation counter, the publication permits, the waiting publications or the
shutdown flag. -/
lemma Inv.congr (h : Inv kind s) (hpeers : t.peers = s.peers) (htable : t.table = s.table)
    (hnext : s.next ≤ t.next) (hreserved : Reserved t) : Inv kind t := by
  refine ⟨hpeers ▸ h.sound, ?_, hpeers ▸ h.generations, ?_, hpeers ▸ h.ended, hreserved⟩
  · rw [hpeers, htable]
    exact h.table
  · rw [hpeers]
    intro j r hr
    exact Nat.lt_of_lt_of_le (h.below j r hr) hnext

lemma generate_spec {table : Table} {left generation : Nat} {id : Bytes} {g : Nat}
    (h : generate table left generation = .ok (id, g)) :
    id ∉ table ∧ generation ≤ g ∧ g ≤ generation + left := by
  induction left generalizing generation with
  | zero =>
      unfold generate at h
      split_ifs at h with hin
      obtain ⟨rfl, rfl⟩ := Prod.mk.inj (Except.ok.inj h)
      exact ⟨hin, Nat.le_refl _, Nat.le_refl _⟩
  | succ left ih =>
      unfold generate at h
      split_ifs at h with hin
      · obtain ⟨hid, hle, hle'⟩ := ih h
        exact ⟨hid, by omega, by omega⟩
      · obtain ⟨rfl, rfl⟩ := Prod.mk.inj (Except.ok.inj h)
        exact ⟨hin, Nat.le_refl _, by omega⟩

lemma Inv.connect (h : Inv kind s) (hpub : s.publishing = none) (property : Option Bytes) :
    Inv kind (connect kind property s).1 := by
  have hwait : ∀ n, s.next ≤ n → Inv kind { s with next := n } :=
    fun n hn => h.congr rfl rfl hn h.reserved
  unfold Transport.connect
  split
  · exact h
  · split_ifs with hlt
    · split
      · split_ifs with hin
        · exact hwait _ (Nat.le_succ _)
        · exact h.admitPeer hpub hin (Nat.le_refl _)
      · split
        · next id generation hgen =>
          obtain ⟨hid, hle, -⟩ := generate_spec hgen
          exact h.admitPeer hpub hid hle
        · exact hwait _ (Nat.le_of_lt hlt)
    · exact h

/-! ## Publications -/

/-- The places of the table, without repetition. -/
lemma Inv.values_nodup (h : Inv kind s) : s.values.Nodup := by
  refine List.Nodup.map_on ?_ s.table.nodupKeys.nodup
  rintro ⟨id, i⟩ hx ⟨id', i'⟩ hy heq
  obtain rfl : i = i' := heq
  obtain ⟨p, hp, -, rfl⟩ := (h.table id i).1 (AList.mem_lookup_iff.2 hx)
  obtain ⟨p', hp', -, rfl⟩ := (h.table id' i).1 (AList.mem_lookup_iff.2 hy)
  rw [hp] at hp'
  rw [Option.some.inj hp']

/-- The places of the table are those of the connections in it. -/
lemma Inv.mem_values (h : Inv kind s) :
    i ∈ s.values ↔ ∃ p, s.peers[i]? = some p ∧ p.removed = false := by
  constructor
  · intro hi
    obtain ⟨⟨id, k⟩, hx, rfl⟩ := List.mem_map.1 hi
    obtain ⟨p, hp, hrem, -⟩ := (h.table id k).1 (AList.mem_lookup_iff.2 hx)
    exact ⟨p, hp, hrem⟩
  · rintro ⟨p, hp, hrem⟩
    have hx := AList.mem_lookup_iff.1 ((h.table p.id i).2 ⟨p, hp, hrem, rfl⟩)
    exact List.mem_map.2 ⟨_, hx, rfl⟩

lemma lock_cases {k : Nat} {order : List Nat} (hlock : lock k order s = some t) :
    s.publishing = none ∧ order.Perm s.values ∧ ∃ wire topic, s.waiting[k]? = some (wire, topic) ∧
      t = { s with
        waiting := s.waiting.eraseIdx k
        publishing := some ⟨wire, topic, .visit order []⟩ } := by
  unfold lock at hlock
  split at hlock
  · next wire topic hpub hwait =>
    split_ifs at hlock with hperm
    exact ⟨hpub, hperm, wire, topic, hwait, (Option.some.inj hlock).symm⟩
  · cases hlock

lemma Inv.lock (h : Inv kind s) {k : Nat} {order : List Nat} (hlock : lock k order s = some t) :
    Inv kind t := by
  obtain ⟨hpub, hperm, wire, topic, -, rfl⟩ := lock_cases hlock
  refine h.congr rfl rfl (Nat.le_refl _) ⟨?_, ?_, ?_⟩
  · change (order ++ []).Nodup
    rw [List.append_nil]
    exact hperm.nodup_iff.2 h.values_nodup
  · intro i hi
    change i ∈ order ++ [] at hi
    rw [List.append_nil] at hi
    obtain ⟨p, hp, -⟩ := h.mem_values.1 (hperm.mem_iff.1 hi)
    exact (List.getElem?_eq_some_iff.1 hp).1
  · intro j p hp
    have hres := h.reserved
    unfold Reserved at hres
    rw [hpub] at hres
    exact (hres j p hp).trans (held_not_mem List.not_mem_nil).symm

/-- An action of the publication in progress: on a peer, or on none. -/
lemma publishStep_cases (hstep : publishStep s = some (t, out)) : ∃ P, s.publishing = some P ∧
    ((∃ i p q stage, s.peers[i]? = some p ∧ Visited P.wire P.topic i p P.stage q stage out ∧
        t.peers = s.peers.set i q ∧ t.publishing = some { P with stage := stage } ∧
        t.table = s.table ∧ t.next = s.next) ∨
      ∃ stage, Turns P.wire P.stage stage out ∧ t.peers = s.peers ∧
        t.publishing = stage.map (fun stage => { P with stage := stage }) ∧
        t.table = s.table ∧ t.next = s.next) := by
  unfold publishStep at hstep
  split at hstep
  · cases hstep
  · next P hP =>
    refine ⟨P, hP, ?_⟩
    split at hstep
    · next i htarget =>
      obtain ⟨p, hp, hrun⟩ := Option.map_eq_some_iff.1 hstep
      obtain ⟨rfl, rfl⟩ := Prod.ext_iff.1 hrun
      obtain ⟨q, stage, hv, hpeers, hpub, htable, hnext⟩ :=
        publishAt_visited (p := p) (s := s) htarget
      exact .inl ⟨i, p, q, stage, hp, hv, hpeers hp, hpub, htable, hnext⟩
    · next htarget =>
      obtain ⟨rfl, rfl⟩ := Prod.ext_iff.1 (Option.some.inj hstep)
      obtain ⟨stage, hturn, hpub, hpeers, htable, hnext⟩ := publishOn_turns (s := s) htarget
      exact .inr ⟨stage, hturn, hpeers, hpub, htable, hnext⟩

lemma Inv.publishing (h : Inv kind s) (hP : s.publishing = some P) : P.Sound s.peers := by
  have hres := h.reserved
  unfold Reserved at hres
  rw [hP] at hres
  exact hres

lemma Inv.publishStep (h : Inv kind s) (hstep : publishStep s = some (t, out)) : Inv kind t := by
  obtain ⟨P, hP, ⟨i, p, q, stage, hp, hv, hpeers, hpub, htable, hnext⟩ |
    ⟨stage, hturn, hpeers, hpub, htable, hnext⟩⟩ := publishStep_cases hstep
  · have hsound := h.publishing hP
    have heffect : VisitEffect kind p q P.wire i out :=
      hv.effect (hsound.holds i p hp) hsound.nodup
    refine h.act hp heffect.keeps heffect.sound hpeers htable hnext ?_
    unfold Reserved
    rw [hpub, hpeers]
    exact hv.keeps_sound hsound hp
  · have hsound := h.publishing hP
    refine h.congr hpeers htable (Nat.le_of_eq hnext.symm) ?_
    unfold Reserved
    rw [hpub, hpeers]
    cases stage with
    | none => exact fun j r hr => hturn.holds_nothing hsound hr
    | some stage => exact hturn.keeps_sound hsound

end Jupyter.Transport

end Rnx
