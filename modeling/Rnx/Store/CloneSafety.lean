import Rnx.Store.Cloning

/-!
# A clone leaves nothing behind when it fails

`Building` is the invariant of the clone loop: the copies made so far are owned by the locals, the
entries with a frame are marked, and everything of the original store is still there.  Every round
keeps it, failing or not, and unwinding from any state it holds in restores the store.
-/

namespace Rnx

open ErrState

namespace Store

variable {s t u u₀ : Store} {h k : Handle} {e : Entry} {own own' : Handle → Nat}
  {held : Option Hold} {marks rest : List Handle} {p : Payload} {c : Cloning} {start scratch : Nat}
  {α β : Type}

/-! ## Rules for the locals -/

lemma wp_onStore {m : M α} {Q : α → Cloning × Store → Prop} {E : Error → Cloning × Store → Prop} :
    wp (onStore m) Q E (c, u) ↔ wp m (fun a t => Q a (c, t)) (fun x t => E x (c, t)) u := by
  unfold wp onStore
  rcases m u with ⟨x | a, t⟩ <;> rfl

lemma wp_onStore_bind {m : M α} {k : α → CM β} {Q : β → Cloning × Store → Prop}
    {E : Error → Cloning × Store → Prop} : wp (onStore m >>= k) Q E (c, u) ↔
      wp m (fun a t => wp (k a) Q E (c, t)) (fun x t => E x (c, t)) u := by
  rw [wp_bind, wp_onStore]

lemma wp_locals_bind {k : Cloning → CM β} {Q : β → Cloning × Store → Prop}
    {E : Error → Cloning × Store → Prop} :
    wp (locals >>= k) Q E (c, u) ↔ wp (k c) Q E (c, u) := wp_bind

lemma wp_setLocals {f : Cloning → Cloning} {Q : Unit → Cloning × Store → Prop}
    {E : Error → Cloning × Store → Prop} :
    wp (setLocals f) Q E (c, u) ↔ Q () (f c, u) := Iff.rfl

lemma wp_setLocals_bind {f : Cloning → Cloning} {k : Unit → CM β}
    {Q : β → Cloning × Store → Prop} {E : Error → Cloning × Store → Prop} :
    wp (setLocals f >>= k) Q E (c, u) ↔ wp (k ()) Q E (f c, u) := wp_bind

/-! ## Marks -/

/-- Setting or clearing a mark changes neither owners nor links. -/
lemma Inv.path (hi : Inv own held s) (hh : s.at? h = some e) (mark : Bool) :
    Inv own held (s.modify h.slot fun e => { e with clonePath := mark }) :=
  have hstrong : 1 ≤ e.strong := hi.counts.alive _ _ hh
  hi.rewrite (n := s.edges) (b := s.bytes) hh (fun e => { e with clonePath := mark })
    (fun _ => ⟨rfl, rfl⟩) (fun _ => rfl) hstrong ⟨rfl, fun _ => rfl, fun _ => rfl, fun _ => rfl⟩
    rfl rfl hi.counts.bytes_le hi.counts.room hi.held_owned

lemma setClonePath_spec (hopen : s.closed = false) (hh : s.at? h = some e) (mark : Bool) :
    wp (setClonePath h mark)
      (fun _ t => t = s.modify h.slot fun e => { e with clonePath := mark })
      (fun _ _ => False) s := by
  refine wp_read_bind (fun x hx => ?_) fun _ _ => rfl
  rw [entry_eq_ok.2 ⟨hopen, hh⟩] at hx
  cases hx

lemma Extends.repath {marks' : List Handle} {mark : Bool} (hx : Extends marks s u)
    (hh : u.at? h = some e)
    (hself : ∀ d, s.at? h = some d → Kept (decide (h ∈ marks)) d e →
      mark = (d.clonePath || decide (h ∈ marks')))
    (hother : ∀ k, k ≠ h → (k ∈ marks' ↔ k ∈ marks)) :
    Extends marks' s (u.modify h.slot fun e => { e with clonePath := mark }) := by
  refine hx.rewrite (sameTable_modify u _ fun e => ⟨rfl, rfl⟩) (fun k y hy => ?_) fun k x hk => ?_
  · rw [at?_modify hh] at hy
    split_ifs at hy with hkh
    · obtain rfl := Option.some.inj hy
      exact ⟨e, hkh ▸ hh, rfl⟩
    · exact ⟨y, hy, rfl⟩
  · rw [at?_modify hh]
    split_ifs with hkh
    · subst hkh
      obtain rfl := Option.some.inj (hh.symm.trans hk)
      exact ⟨_, rfl, fun d hd hkept => ⟨hkept.payload, hkept.readers, hkept.charged, hself d hd hkept⟩⟩
    · refine ⟨x, hk, fun d _ hkept => ⟨hkept.payload, hkept.readers, hkept.charged, ?_⟩⟩
      rw [hkept.path, decide_eq_decide.2 (hother k hkh)]

lemma Extends.mark (hx : Extends marks s u) (hh : u.at? h = some e) :
    Extends (h :: marks) s (u.modify h.slot fun e => { e with clonePath := true }) :=
  hx.repath hh (fun d _ _ => by simp) fun k hk => by simp [hk]

lemma Extends.unmark (hx : Extends (h :: rest) s u) (hh : u.at? h = some e) (hn : h ∉ rest)
    (hs : ∀ d, s.at? h = some d → d.clonePath = false) :
    Extends rest s (u.modify h.slot fun e => { e with clonePath := false }) :=
  hx.repath hh (fun d hd _ => by simp [hs d hd, hn]) fun k hk => by simp [hk]

/-! ## Copies -/

/-- `m` publishes a copy beside the entries of `s`, or only reserves capacity. -/
def Copies (marks : List Handle) (s : Store) (own' : Handle → Nat) (held : Option Hold)
    (u₀ : Store) (m : M Value) (u : Store) : Prop :=
  wp m (fun (r : Value) t => Inv (own' + r.refs) held t ∧ t.work = [] ∧ Extends marks s t)
    (fun _ t => Reserved u₀ t) u

section Copies

variable (hx : Extends marks s u₀) (hi : Inv own' held u₀) (hw : u₀.work = [])
  (hr : Reserved u₀ u)

include hr in
lemma copies_alloc_bind {n : Nat} {m : Unit → M Value}
    (hk : ∀ t, Reserved u₀ t → Copies marks s own' held u₀ (m ()) t) :
    Copies marks s own' held u₀ (alloc n >>= m) u := by
  refine wp_seq (alloc_spec n) (fun _ _ ⟨a, h⟩ => h ▸ hr.trans (.spent a)) ?_
  rintro - _ ⟨a, rfl⟩
  exact hk _ (hr.trans (.spent a))

include hx hi hw hr

lemma admitClone_copies (hp : p.Plain) :
    Copies marks s own' held u₀ (admitClone p start scratch) u := by
  refine wp_ofExcept_bind (fun _ _ => hr) fun n _ => wp_read_bind (fun _ _ => hr) fun _ _ => ?_
  refine wp_mono (admit_extends (hx.reserved hr) (hi.reserved hr) hp) ?_ fun _ _ h => hr.trans h
  rintro r t ⟨hit, hwt, hxt⟩
  exact ⟨hit, hwt.trans (by rw [hr.work, hw]), hxt⟩

lemma retained_copies (v : Value) : Copies marks s own' held u₀ (do retain v; pure v) u := by
  refine wp_seq (retain_inv (hi.reserved hr) v) (fun _ _ h => h ▸ hr) ?_
  rintro - t ⟨rfl, hit⟩
  refine ⟨hit, ?_, (hx.reserved hr).bump _⟩
  change u.work = []
  rw [hr.work, hw]

omit hx hi hw in
lemma copies_cloneKeys_bind {m : Unit → M Value} {capacity : Nat} (fields : List (Text × Value))
    (n : Nat) (hk : ∀ t, Reserved u₀ t → Copies marks s own' held u₀ (m ()) t) :
    Copies marks s own' held u₀ (cloneKeys start scratch capacity fields n >>= m) u := by
  refine wp_bind.2 ?_
  induction fields generalizing u n with
  | nil => exact hk u hr
  | cons f fs ih =>
      refine wp_seq (alloc_spec _) (fun _ _ ⟨a, h⟩ => h ▸ hr.trans (.spent a)) ?_
      rintro - _ ⟨a, rfl⟩
      have hra := hr.trans (.spent a)
      refine wp_ofExcept_bind (fun _ _ => hra) fun _ _ => wp_ofExcept_bind (fun _ _ => hra) fun _ _ => ?_
      exact wp_read_bind (fun _ _ => hra) fun _ _ => ih hra _

lemma cloneLeaf_copies (v : Value) :
    Copies marks s own' held u₀ (cloneLeaf v start scratch) u := by
  cases v with
  | heap h =>
      have hrefuse : wp (do
            let e ← read (·.entry h)
            fail ((err .type).withDetail (.noCloneProtocol (.fromType e.payload.tag))))
          (fun (r : Value) t => Inv (own' + r.refs) held t ∧ t.work = [] ∧ Extends marks s t)
          (fun _ t => Reserved u₀ t) u := wp_read_bind (fun _ _ => hr) fun _ _ => hr
      have hlist : ∀ (tag : Ty) (values : Buf Value), Copies marks s own' held u₀ (do
            let size ← ofExcept (okOr (checkedMul values.items.length sizeValue)
              (err .storeCapacity))
            read (·.cloneRoom start scratch size)
            alloc size
            admitClone (.list tag (.copy values.items)) start scratch) u := by
        intro tag values
        refine wp_ofExcept_bind (fun _ _ => hr) fun _ _ => wp_read_bind (fun _ _ => hr) fun _ _ => ?_
        exact copies_alloc_bind hr fun t ht => admitClone_copies hx hi hw ht ⟨rfl, rfl⟩
      have hrecord : ∀ (tag : Ty) (fields : Buf (Text × Value)), Copies marks s own' held u₀ (do
            let size ← ofExcept (okOr ((checkedMul fields.items.length sizeField).bind
              (keyLengths · fields.items)) (err .storeCapacity))
            read (·.cloneRoom start scratch size)
            alloc (fields.items.length * sizeField)
            cloneKeys start scratch fields.items.length fields.items 0
            admitClone (.record tag (.copy (fields.items.map fun f => (.copy f.1.chars, f.2))))
              start scratch) u := by
        intro tag fields
        refine wp_ofExcept_bind (fun _ _ => hr) fun _ _ => wp_read_bind (fun _ _ => hr) fun _ _ => ?_
        refine copies_alloc_bind hr fun t ht => copies_cloneKeys_bind ht _ _ fun v hv => ?_
        exact admitClone_copies hx hi hw hv ⟨rfl, rfl⟩
      refine wp_read_bind (fun _ _ => hr) fun q _ => ?_
      split
      · exact retained_copies hx hi hw hr _
      · refine wp_read_bind (fun _ _ => hr) fun _ _ => copies_alloc_bind hr fun t ht => ?_
        exact admitClone_copies hx hi hw ht ⟨rfl, rfl⟩
      · split
        · exact hlist _ _
        · exact hlist _ _
        · exact hrefuse
      · split
        · exact hrecord _ _
        · exact hrecord _ _
        · exact hrefuse
      · exact hrefuse
  | _ => exact retained_copies hx hi hw hr _

lemma finishClone_copies (frame : Frame) :
    Copies marks s own' held u₀ (finishClone frame start scratch) u := by
  have hp : (finishPayload frame).Plain := by
    unfold finishPayload
    split <;> exact ⟨rfl, rfl⟩
  unfold finishClone
  split
  · refine wp_ofExcept_bind (fun _ _ => hr) fun _ _ => wp_read_bind (fun _ _ => hr) fun _ _ => ?_
    exact copies_alloc_bind hr fun t ht => admitClone_copies hx hi hw ht hp
  · exact admitClone_copies hx hi hw hr hp

end Copies

/-- Releasing a list of owned values keeps what is beside them. -/
lemma releaseAll_extends {vs : List Value} (hs : Inv own held s) (hws : s.work = [])
    (hx : Extends marks s u) (hu : Inv (own' + refsIn vs) held u) (hw : u.work = [])
    (hown : ∀ k, own k ≤ own' k) :
    wp (releaseAll vs none)
      (fun r t => r = none ∧ Inv own' held t ∧ t.work = [] ∧ Extends marks s t)
      (fun _ _ => False) u := by
  induction vs generalizing u with
  | nil =>
      have h0 : refsIn [] = 0 := rfl
      rw [h0, add_zero] at hu
      exact ⟨rfl, hu, hw, hx⟩
  | cons v vs ih =>
      have hsplit : own' + refsIn (v :: vs) = own' + refsIn vs + v.refs := by
        funext k
        simp only [Pi.add_apply, refsIn_cons]
        omega
      rw [hsplit] at hu
      unfold releaseAll
      rw [wp_bind, wp_attempt]
      refine wp_mono (release_extends hx hs hws hu fun k => (hown k).trans (Nat.le_add_right _ _)) ?_
        fun _ _ h => h.elim
      rintro ⟨⟩ t ⟨hit, hwt, hxt⟩
      exact ih hxt hit hwt

/-! ## The invariant of the loop -/

/-- The copies the locals own. -/
def Cloning.owned (c : Cloning) : Handle → Nat :=
  optionRefs c.completed + refsIn (c.stack.flatMap (·.children.items))

/-- The bytes of the frames. -/
def frameBytes (stack : List Frame) : Nat := (stack.map (·.children.capacity * sizeValue)).sum

@[simp] lemma frameBytes_cons (frame : Frame) (stack : List Frame) : frameBytes (frame :: stack) =
    frame.children.capacity * sizeValue + frameBytes stack := rfl

/-- The state of a clone of a value of `s`. -/
structure Building (own : Handle → Nat) (held : Option Hold) (s : Store) (c : Cloning) (u : Store) :
    Prop where
  inv : Inv (own + c.owned) held u
  work : u.work = []
  beside : Extends (c.stack.map Frame.handle) s u
  nodup : (c.stack.map Frame.handle).Nodup
  marked : ∀ f ∈ c.stack, ∃ e, s.at? f.handle = some e ∧ e.clonePath = false
  pending : ∀ h, c.pending = some (.heap h) → ∀ x, u.at? h = some x → (s.at? h).isSome = true
  scratch : c.scratch = c.stackCap * sizeFrame + frameBytes c.stack
  one : c.pending = none ∨ c.completed = none

lemma Building.reserved (hb : Building own held s c u) (hr : Reserved u t) :
    Building own held s c t :=
  ⟨hb.inv.reserved hr, by rw [hr.work, hb.work], hb.beside.reserved hr, hb.nodup, hb.marked,
    fun h hh x hx => hb.pending h hh x (hr.at? h ▸ hx), hb.scratch, hb.one⟩

lemma Building.taken (hb : Building own held s c u) :
    Building own held s { c with pending := none } u :=
  ⟨hb.inv, hb.work, hb.beside, hb.nodup, hb.marked, by simp, hb.scratch, .inl rfl⟩

/-- A round keeps the invariant whether or not it fails. -/
def Builds (own : Handle → Nat) (held : Option Hold) (s : Store) (m : CM α)
    (Q : α → Cloning → Store → Prop) (c : Cloning) (u : Store) : Prop :=
  wp m (fun a x => Q a x.1 x.2) (fun _ x => Building own held s x.1 x.2) (c, u)

section Steps

variable {Q : β → Cloning → Store → Prop}

lemma builds_seq {m : CM α} {k : α → CM β} {R : α → Cloning → Store → Prop}
    (hm : Builds own held s m R c u)
    (hk : ∀ a c' t, R a c' t → Builds own held s (k a) Q c' t) :
    Builds own held s (m >>= k) Q c u :=
  wp_bind.2 (wp_mono hm (fun a x h => hk a x.1 x.2 h) fun _ _ h => h)

lemma builds_mono {m : CM β} {R : β → Cloning → Store → Prop} (hm : Builds own held s m R c u)
    (hk : ∀ a c' t, R a c' t → Q a c' t) : Builds own held s m Q c u :=
  wp_mono hm (fun a x h => hk a x.1 x.2 h) fun _ _ h => h

lemma builds_read_bind {f : Store → Except Error α} {m : α → CM β}
    (hb : Building own held s c u) (hk : ∀ a, f u = .ok a → Builds own held s (m a) Q c u) :
    Builds own held s (onStore (read f) >>= m) Q c u :=
  wp_onStore_bind.2 (wp_read (fun _ _ => hb) hk)

lemma builds_alloc_bind {n : Nat} {m : Unit → CM β} (hb : Building own held s c u)
    (hk : ∀ t, Reserved u t → Builds own held s (m ()) Q c t) :
    Builds own held s (onStore (alloc n) >>= m) Q c u := by
  refine wp_onStore_bind.2 (wp_mono (alloc_spec n) ?_ ?_)
  · rintro - _ ⟨a, rfl⟩
    exact hk _ (.spent a)
  · rintro - _ ⟨a, rfl⟩
    exact hb.reserved (.spent a)

lemma builds_ofExcept_bind {r : Except Error α} {m : α → CM β} (hb : Building own held s c u)
    (hk : ∀ a, r = .ok a → Builds own held s (m a) Q c u) :
    Builds own held s (ofExcept r >>= m) Q c u :=
  wp_ofExcept_bind (fun _ _ => hb) hk

lemma builds_locals_bind {m : Cloning → CM β} (hk : Builds own held s (m c) Q c u) :
    Builds own held s (locals >>= m) Q c u :=
  wp_locals_bind.2 hk

lemma builds_setLocals_bind {f : Cloning → Cloning} {m : Unit → CM β}
    (hk : Builds own held s (m ()) Q (f c) u) : Builds own held s (setLocals f >>= m) Q c u :=
  wp_setLocals_bind.2 hk

lemma builds_guard_bind {q : Prop} [Decidable q] {x : Error} {m : Unit → CM β}
    (hb : Building own held s c u) (hk : q → Builds own held s (m ()) Q c u) :
    Builds own held s (guardWith q x >>= m) Q c u :=
  wp_guardWith_bind (fun _ => hb) hk

end Steps

/-- Room for a frame, with nothing else changed. -/
lemma growStack_builds (hb : Building own held s c u) :
    Builds own held s (growStack start)
      (fun _ c' t => ∃ cap n, c' = { c with stackCap := cap, scratch := n } ∧ Reserved u t ∧
        Building own held s c' t) c u := by
  refine builds_locals_bind ?_
  split_ifs
  · refine builds_ofExcept_bind hb fun capacity _ => builds_ofExcept_bind hb fun old ho => ?_
    refine builds_ofExcept_bind hb fun extra _ => builds_read_bind hb fun _ _ => ?_
    refine builds_alloc_bind hb fun t ht => ?_
    have hbt := hb.reserved ht
    refine builds_ofExcept_bind hbt fun n hn => builds_setLocals_bind ?_
    rw [okOr_eq_ok] at ho hn
    have hn' : n = capacity * sizeFrame + frameBytes c.stack := by
      simp only [Option.bind_eq_some_iff] at hn
      obtain ⟨a, ha, b, hb', hn⟩ := hn
      have := checkedSub_eq_some ha
      have := checkedMul_eq_some hb'
      have := checkedAdd_eq_some hn
      have := checkedMul_eq_some ho
      have := hb.scratch
      omega
    have hbn : Building own held s { c with stackCap := capacity, scratch := n } t :=
      ⟨hbt.inv, hbt.work, hbt.beside, hbt.nodup, hbt.marked, hbt.pending, hn', hbt.one⟩
    refine wp_onStore.2 (wp_read (fun _ _ => hbn) fun _ _ => ?_)
    exact ⟨capacity, n, rfl, ht, hbn⟩
  · exact ⟨c.stackCap, c.scratch, rfl, .refl u, hb⟩

/-- A frame is pushed for an unmarked entry of the original store. -/
lemma cloneFrame_builds (hb : Building own held s c u)
    (hh : ∀ x, u.at? h = some x → (s.at? h).isSome = true) :
    Builds own held s (cloneFrame h start)
      (fun _ c' t => Building own held s c' t ∧ c'.pending = c.pending ∧
        c'.completed = c.completed) c u := by
  refine builds_read_bind hb fun e he => builds_guard_bind hb fun hmark => ?_
  refine builds_read_bind hb fun p _ => builds_ofExcept_bind hb fun ⟨kind, length⟩ _ => ?_
  refine builds_seq (growStack_builds hb) ?_
  rintro ⟨⟩ _ t ⟨cap, n, rfl, hut, hbt⟩
  refine builds_locals_bind (builds_ofExcept_bind hbt fun size hs => ?_)
  refine builds_read_bind hbt fun _ _ => builds_alloc_bind hbt fun v hv => ?_
  have hbv := hbt.reserved hv
  refine builds_read_bind hbv fun _ _ => builds_guard_bind hbv fun _ => ?_
  refine builds_ofExcept_bind hbv fun scratch hn => wp_onStore_bind.2 ?_
  obtain ⟨hopen, he⟩ := entry_eq_ok.1 he
  have hev : v.at? h = some e := by
    rw [hv.at?, hut.at?]
    exact he
  refine wp_mono (setClonePath_spec hbv.inv.table.isOpen hev true) ?_ fun _ _ h => h.elim
  rintro ⟨⟩ _ rfl
  obtain ⟨d, hd⟩ := Option.isSome_iff_exists.1 (hh e he)
  have hpath : d.clonePath = false ∧ h ∉ c.stack.map Frame.handle := by
    obtain ⟨x, hx, hk⟩ := hb.beside.old h d hd
    obtain rfl := Option.some.inj (he.symm.trans hx)
    have := hk.path
    rw [hmark] at this
    simpa using this.symm
  rw [okOr_eq_ok] at hs hn
  refine ⟨⟨hbv.inv.path hev true, hbv.work, hbv.beside.mark hev,
    List.nodup_cons.2 ⟨hpath.2, hbv.nodup⟩, ?_, fun k hk x hx => ?_, ?_, hbv.one⟩, rfl, rfl⟩
  · rintro f hf
    rcases List.mem_cons.1 hf with rfl | hf
    · exact ⟨d, hd, hpath.1⟩
    · exact hbv.marked f hf
  · rw [at?_modify hev] at hx
    split_ifs at hx with hkh
    · rw [hkh, hd]
      rfl
    · exact hbv.pending k hk x hx
  · have hsize := checkedMul_eq_some hs
    have hscratch := checkedAdd_eq_some hn
    have hcap : (Buf.filled length ([] : List Value)).capacity = length := Nat.max_zero _
    have hsum : n = cap * sizeFrame + frameBytes c.stack := hbv.scratch
    change scratch = cap * sizeFrame + frameBytes (⟨h, kind, 0, length, .filled length []⟩ :: c.stack)
    rw [frameBytes_cons, hcap]
    change scratch = n + size at hscratch
    omega

/-! ## A round -/

/-- The pending value is copied, or gets a frame. -/
lemma clonePending_builds (hb : Building own held s c u) :
    Builds own held s (clonePending start)
      (fun _ c' t => Building own held s c' t ∧ c'.pending = none) c u := by
  have hbt := hb.taken
  have hleaf : ∀ v, c.pending = some v → Builds own held s (do
        let v ← onStore (cloneLeaf v start c.scratch)
        setLocals fun c => { c with completed := some v })
      (fun _ c' t => Building own held s c' t ∧ c'.pending = none) { c with pending := none } u := by
    intro v hv
    have hnone : c.completed = none := hb.one.resolve_left (by simp [hv])
    refine wp_onStore_bind.2 (wp_mono
      (cloneLeaf_copies hb.beside hb.inv hb.work (.refl u) v) ?_ ?_)
    · rintro r t ⟨hit, hwt, hxt⟩
      have hown : own + Cloning.owned { c with pending := none, completed := some r } =
          own + c.owned + r.refs := by
        funext k
        simp only [Cloning.owned, hnone, optionRefs_none, optionRefs_some, Pi.add_apply,
          Pi.zero_apply]
        omega
      refine ⟨⟨hown ▸ hit, hwt, hxt, hb.nodup, hb.marked, ?_, hb.scratch, .inl rfl⟩, rfl⟩
      rintro k hk
      cases hk
    · intro _ t hr
      exact hbt.reserved hr
  refine builds_locals_bind (builds_setLocals_bind ?_)
  split
  · exact ⟨hbt, rfl⟩
  · next h hp =>
    refine builds_read_bind hbt fun e he => ?_
    split_ifs
    · refine builds_mono (cloneFrame_builds hbt (hb.pending h hp)) ?_
      rintro _ c' t ⟨hbc, hpend, -⟩
      exact ⟨hbc, hpend⟩
    · exact hleaf _ hp
  · next v _ hp => exact hleaf v hp

/-- The copies of the children of a frame after one more. -/
lemma owned_push {parent : Frame} {stack : List Frame} {v : Value} {children : Buf Value}
    (hc : c.completed = some v) (hst : c.stack = parent :: stack)
    (hp : parent.children.pushWithin v = some children) :
    Cloning.owned { c with
      completed := none
      stack := { parent with children := children } :: stack } = c.owned := by
  obtain ⟨hitems, -⟩ := Buf.pushWithin_eq_some hp
  funext k
  simp only [Cloning.owned, hc, hst, optionRefs_none, optionRefs_some, hitems,
    List.flatMap_cons, refsIn_append, refsIn_cons, refsIn_nil, Pi.add_apply, Pi.zero_apply]
  omega

/-- A finished copy goes to the frame below, or to the caller. -/
lemma cloneCompleted_builds (hb : Building own held s c u) :
    Builds own held s cloneCompleted (fun r c' t => match r with
      | none => Building own held s c' t ∧ c'.completed = none ∧ c'.pending = c.pending
      | some v => Inv (own + v.refs) held t ∧ t.work = [] ∧ Extends [] s t) c u := by
  refine builds_locals_bind ?_
  split
  · next hn => exact ⟨hb, hn, rfl⟩
  · next v hv =>
    split
    · next hst =>
      refine ⟨?_, hb.work, ?_⟩
      · have hown : c.owned = v.refs := by
          funext k
          simp [Cloning.owned, hv, hst]
        exact hown ▸ hb.inv
      · have := hb.beside
        rw [hst] at this
        exact this
    · next parent rest hst =>
      split
      · next children hp =>
        have hcap := (Buf.pushWithin_eq_some hp).2
        refine ⟨⟨?_, hb.work, ?_, ?_, ?_, hb.pending, ?_, .inr rfl⟩, rfl, rfl⟩
        · rw [owned_push hv hst hp]
          exact hb.inv
        · have := hb.beside
          rw [hst] at this
          exact this
        · have := hb.nodup
          rw [hst] at this
          exact this
        · intro f hf
          rcases List.mem_cons.1 hf with rfl | hf
          · exact hb.marked parent (hst ▸ List.mem_cons_self)
          · exact hb.marked f (hst ▸ List.mem_cons_of_mem _ hf)
        · have := hb.scratch
          rw [hst, frameBytes_cons] at this
          change c.scratch = _ + frameBytes ({ parent with children := children } :: rest)
          rw [frameBytes_cons, hcap]
          exact this
      · exact hb

/-- The children of an entry of the original store are live in it. -/
lemma frameChild_live (hs : Inv own held s) (hk : s.at? k = some e) {next : Nat}
    (hv : frameChild e.payload next = .ok (.heap h)) : (s.at? h).isSome = true := by
  have hmem : Value.heap h ∈ e.payload.children := by
    unfold frameChild at hv
    split at hv
    · next hp =>
      rw [okOr_eq_ok] at hv
      rw [hp]
      exact List.mem_of_getElem? hv
    · next hp =>
      obtain rfl := Except.ok.inj hv
      rw [hp]
      exact List.mem_singleton_self _
    · cases hv
  obtain ⟨x, hx⟩ := hs.child_live hk hmem
  rw [hx]
  rfl

/-- The top frame fetches its next child, or is replaced by its copy. -/
lemma cloneTop_builds (hs : Inv own held s) (hws : s.work = []) (hb : Building own held s c u)
    (hcomp : c.completed = none) (hpend : c.pending = none) :
    Builds own held s (cloneTop start) (fun _ c' t => Building own held s c' t) c u := by
  refine builds_locals_bind ?_
  split
  · exact hb
  · next frame rest hst =>
    have hside := hb.beside
    have hnodup := hb.nodup
    have hscratch := hb.scratch
    have hinv := hb.inv
    rw [hst] at hside hnodup hscratch
    rw [List.map_cons] at hside hnodup
    rw [frameBytes_cons] at hscratch
    obtain ⟨d, hd, hpath⟩ := hb.marked frame (hst ▸ List.mem_cons_self)
    obtain ⟨x, hx, hkept⟩ := hside.old _ d hd
    have hrest : ∀ f ∈ rest, ∃ e, s.at? f.handle = some e ∧ e.clonePath = false := fun f hf =>
      hb.marked f (hst ▸ List.mem_cons_of_mem _ hf)
    split_ifs
    · refine builds_read_bind hb fun p hp => builds_ofExcept_bind hb fun v hv => ?_
      have hown : Cloning.owned { c with
          pending := some v
          stack := { frame with next := frame.next + 1 } :: rest } = c.owned := by
        unfold Cloning.owned
        rw [hst]
        rfl
      refine ⟨?_, hb.work, hside, hnodup, ?_, ?_, hscratch, .inr hcomp⟩
      · rw [hown]
        exact hinv
      · intro f hf
        rcases List.mem_cons.1 hf with rfl | hf
        · exact ⟨d, hd, hpath⟩
        · exact hrest f hf
      · intro k hk y hy
        obtain rfl := Option.some.inj hk
        obtain ⟨-, x', hx', rfl, -⟩ := payload_eq_ok.1 hp
        obtain rfl := Option.some.inj (hx.symm.trans hx')
        rw [hkept.payload] at hv
        exact frameChild_live hs hd hv
    · have hn := List.nodup_cons.1 hnodup
      have hown : own + c.owned =
          own + refsIn (rest.flatMap (·.children.items)) + refsIn frame.children.items := by
        funext k
        simp only [Cloning.owned, hcomp, hst, optionRefs_none, List.flatMap_cons,
          refsIn_append, Pi.add_apply, Pi.zero_apply]
        omega
      have hinv' := hinv.path hx false
      have hside' := hside.unmark hx hn.1 fun e he => by
        obtain rfl := Option.some.inj (hd.symm.trans he)
        exact hpath
      rw [hown] at hinv'
      refine builds_setLocals_bind (wp_onStore_bind.2 ?_)
      refine wp_mono (setClonePath_spec hb.inv.table.isOpen hx false) ?_ fun _ _ h => h.elim
      rintro ⟨⟩ _ rfl
      -- Whatever building the copy does, the children are released next.
      have hgo : ∀ (result : Except Error Value) (t : Store) (give : Handle → Nat),
          (∀ r, result = .ok r → give = r.refs) → (∀ x, result = .error x → give = 0) →
          Inv (own + refsIn (rest.flatMap (·.children.items)) + give +
            refsIn frame.children.items) held t → t.work = [] →
          Extends (rest.map Frame.handle) s t →
          Builds own held s (cloneSettle frame result) (fun _ c' t => Building own held s c' t)
            { c with stack := rest } t := by
        intro result t give hok herr hit hwt hxt
        refine builds_locals_bind (wp_onStore_bind.2 (wp_mono (releaseAll_extends hs hws hxt hit hwt fun k => ?_) ?_
          fun _ _ h => h.elim))
        · exact (Nat.le_add_right _ _).trans (Nat.le_add_right _ _)
        rintro _ w ⟨rfl, hiw, hww, hxw⟩
        refine wp_ofExcept_bind (fun x hx => ?_) fun n hsub => wp_setLocals_bind.2 ?_
        · have hle : frame.children.capacity * sizeValue ≤ c.scratch := by omega
          rw [checkedSub_of_le hle] at hx
          cases hx
        rw [okOr_eq_ok] at hsub
        have hsub : n = c.scratch - frame.children.capacity * sizeValue :=
          (checkedSub_eq_some hsub).2
        have hsc : n = c.stackCap * sizeFrame + frameBytes rest := by omega
        refine wp_ofExcept_bind (fun x hx => ?_) fun v hv => wp_setLocals_bind.2 ?_
        · have hkeep : own + Cloning.owned { c with stack := rest, scratch := n } =
              own + refsIn (rest.flatMap (·.children.items)) + give := by
            funext k
            simp only [Cloning.owned, hcomp, optionRefs_none, herr x hx, Pi.add_apply,
              Pi.zero_apply]
            omega
          refine ⟨hkeep ▸ hiw, hww, hxw, hn.2, hrest, ?_, hsc, .inl hpend⟩
          intro h hh
          rw [show c.pending = some (.heap h) from hh] at hpend
          cases hpend
        · have hkeep : own + Cloning.owned
              { c with stack := rest, scratch := n, completed := some v } =
              own + refsIn (rest.flatMap (·.children.items)) + give := by
            funext k
            simp only [Cloning.owned, optionRefs_some, hok v hv, Pi.add_apply]
            omega
          refine ⟨hkeep ▸ hiw, hww, hxw, hn.2, hrest, ?_, hsc, .inl hpend⟩
          intro h hh
          rw [show c.pending = some (.heap h) from hh] at hpend
          cases hpend
      refine wp_onStore_bind.2 (wp_attempt.2 (wp_mono
        (finishClone_copies hside' hinv' hb.work (.refl _) frame) ?_ ?_))
      · rintro r t ⟨hit, hwt, hxt⟩
        refine hgo (.ok r) t r.refs (fun _ h => ?_) (fun _ h => ?_) ?_ hwt hxt
        · rw [Except.ok.inj h]
        · cases h
        · have hcomm : own + refsIn (rest.flatMap (·.children.items)) + r.refs +
              refsIn frame.children.items = own + refsIn (rest.flatMap (·.children.items)) +
              refsIn frame.children.items + r.refs := add_right_comm ..
          rw [hcomm]
          exact hit
      · intro x t hr
        refine hgo (.error x) t 0 (fun _ h => ?_) (fun _ _ => rfl) ?_ (hr.work.trans hb.work)
          (hside'.reserved hr)
        · cases h
        · rw [add_zero]
          exact hinv'.reserved hr

/-- A round returns the copy, or goes on. -/
lemma cloneRound_builds (hs : Inv own held s) (hws : s.work = []) (hb : Building own held s c u) :
    Builds own held s (cloneRound start) (fun r c' t => match r with
      | none => Building own held s c' t
      | some v => Inv (own + v.refs) held t ∧ t.work = [] ∧ Extends [] s t) c u := by
  refine builds_seq (clonePending_builds hb) ?_
  rintro _ c' t ⟨hbc, hpend⟩
  refine builds_seq (cloneCompleted_builds hbc) ?_
  rintro (_ | v) c'' w hw
  · exact builds_seq (cloneTop_builds hs hws hw.1 hw.2.1 (hw.2.2.trans hpend)) fun _ _ _ h => h
  · exact hw

lemma cloneLoop_builds (hs : Inv own held s) (hws : s.work = []) (fuel : Nat)
    (hb : Building own held s c u) :
    Builds own held s (cloneLoop start fuel)
      (fun v _ t => Inv (own + v.refs) held t ∧ t.work = [] ∧ Extends [] s t) c u := by
  induction fuel generalizing c u with
  | zero => exact hb
  | succ fuel ih =>
      refine builds_seq (cloneRound_builds hs hws hb) ?_
      rintro (_ | v) c' t ht
      · exact ih ht
      · exact ht

/-! ## Unwinding -/

lemma unwindFrames_restores {stack : List Frame} (hs : Inv own held s) (hws : s.work = [])
    (hu : Inv (own + refsIn (stack.flatMap (·.children.items))) held u) (hwu : u.work = [])
    (hx : Extends (stack.map Frame.handle) s u) (hn : (stack.map Frame.handle).Nodup)
    (hm : ∀ f ∈ stack, ∃ e, s.at? f.handle = some e ∧ e.clonePath = false) :
    wp (unwindFrames stack) (fun _ t => Inv own held t ∧ Restored s t) (fun _ _ => False) u := by
  induction stack generalizing u with
  | nil =>
      have h0 : refsIn (List.flatMap (fun f : Frame => f.children.items) []) = 0 := rfl
      rw [h0, add_zero] at hu
      exact ⟨hu, hx.restored hs hws hu hwu⟩
  | cons frame rest ih =>
      rw [List.map_cons] at hx hn
      obtain ⟨d, hd, hpath⟩ := hm frame List.mem_cons_self
      obtain ⟨x, hxk, -⟩ := hx.old _ d hd
      have hsplit : own + refsIn ((frame :: rest).flatMap (·.children.items)) =
          own + refsIn (rest.flatMap (·.children.items)) + refsIn frame.children.items := by
        funext k
        simp only [List.flatMap_cons, refsIn_append, Pi.add_apply]
        omega
      rw [hsplit] at hu
      have hx' := hx.unmark hxk (List.nodup_cons.1 hn).1 fun e he => by
        obtain rfl := Option.some.inj (hd.symm.trans he)
        exact hpath
      refine wp_bind.2 (wp_attempt.2 (wp_mono (setClonePath_spec hu.table.isOpen hxk false) ?_
        fun _ _ h => h.elim))
      rintro ⟨⟩ _ rfl
      refine wp_seq (releaseAll_extends hs hws hx' (hu.path hxk false) hwu
        fun k => Nat.le_add_right _ _) (fun _ _ h => h) ?_
      rintro _ t ⟨-, hit, hwt, hxt⟩
      exact ih hit hwt hxt (List.nodup_cons.1 hn).2 fun f hf => hm f (List.mem_cons_of_mem _ hf)

/-- Whatever a failed clone had built is gone again. -/
lemma unwindClone_restores (hs : Inv own held s) (hws : s.work = [])
    (hb : Building own held s c u) :
    wp (unwindClone c) (fun _ t => Inv own held t ∧ Restored s t) (fun _ _ => False) u := by
  unfold unwindClone
  rcases hc : c.completed with _ | v
  · have hown : c.owned = refsIn (c.stack.flatMap (·.children.items)) := by
      funext k
      simp [Cloning.owned, hc]
    exact unwindFrames_restores hs hws (hown ▸ hb.inv) hb.work hb.beside hb.nodup hb.marked
  · have hown : own + c.owned = own + refsIn (c.stack.flatMap (·.children.items)) + v.refs := by
      funext k
      simp only [Cloning.owned, hc, optionRefs_some, Pi.add_apply]
      omega
    refine wp_bind.2 (wp_attempt.2 (wp_mono (release_extends hb.beside hs hws
      (hown ▸ hb.inv) fun k => Nat.le_add_right _ _) ?_ fun _ _ h => h.elim))
    rintro ⟨⟩ t ⟨hit, hwt, hxt⟩
    exact unwindFrames_restores hs hws hit hwt hxt hb.nodup hb.marked

lemma wp_runLocals {m : CM α} {Q : Except Error α × Cloning → Store → Prop}
    {E : Error → Store → Prop} : wp (runLocals m c) Q E u ↔
      wp m (fun a x => Q (.ok a, x.1) x.2) (fun e x => Q (.error e, x.1) x.2) (c, u) := by
  unfold wp runLocals
  rcases m (c, u) with ⟨e | a, x⟩ <;> rfl

/-- A clone is returned to the caller, or nothing of it is left. -/
lemma cloneValue_undoes (hi : Inv own held s) (hw : s.work = []) (v : Value) :
    Undoes own held Value.refs (cloneValue v) s := by
  have hstart : Building own held s ⟨0, [], 0, some v, none⟩ s := by
    refine ⟨?_, hw, Extends.start hi.table, List.nodup_nil, by simp, ?_, rfl, .inr rfl⟩
    · have h0 : Cloning.owned ⟨0, [], 0, some v, none⟩ = 0 := by
        funext k
        simp [Cloning.owned]
      rw [h0, add_zero]
      exact hi
    · intro h _ x hx
      rw [hx]
      rfl
  refine wp_get_bind.2 (wp_bind.2 (wp_runLocals.2 (wp_mono
    (cloneLoop_builds hi hw s.cloneFuel hstart) ?_ ?_)))
  · rintro r ⟨c, t⟩ ⟨hit, hwt, -⟩
    exact ⟨hit, hwt⟩
  · rintro x ⟨c, t⟩ hb
    refine wp_seq (unwindClone_restores hi hw hb) (fun _ _ h => h.elim) ?_
    rintro ⟨⟩ u hu
    exact hu

end Store

end Rnx
