import Rnx.Store.Rollback

/-!
# Sorting

A sort takes the elements out of a vector into a guard entry, which holds the vector exclusively
and orders two banks of indices; committing checks that a bank is a permutation, applies it by
following its cycles and gives the elements back.  Releasing the guard instead gives them back in
their old order (`sortRestore`).
-/

namespace Rnx

open ErrState (get update fail read attempt ofExcept guardWith)

/-! ## The permutation -/

/-- `slice::swap`. -/
def swapAt {α : Type} (l : List α) (i j : Nat) : List α :=
  match l[i]?, l[j]? with
  | some a, some b => (l.set i b).set j a
  | _, _ => l

lemma swapAt_perm {α : Type} (l : List α) (i j : Nat) : (swapAt l i j).Perm l := by
  unfold swapAt
  split
  · next a b ha hb =>
    obtain ⟨hi, rfl⟩ := List.getElem?_eq_some_iff.1 ha
    obtain ⟨hj, rfl⟩ := List.getElem?_eq_some_iff.1 hb
    exact List.set_set_perm hi hj
  · exact .refl l

/-- Write the inverse of a bank over a bank of `usize::MAX`; `false` when an index is out of range
or repeated.  What was written before that stays. -/
def invert (len : Nat) (bank : List Nat) : Nat → Nat → List Nat → Bool × List Nat
  | 0, _, inverse => (true, inverse)
  | n + 1, dst, inverse =>
      match bank[dst]? with
      | some src =>
          if src ≥ len ∨ inverse[src]? ≠ some usizeMax then (false, inverse)
          else invert len bank n (dst + 1) (inverse.set src dst)
      | none => (false, inverse)

/-- The inner loop of a commit: swap the element of `dst` to its place until `dst` has its own.
The fuel bounds the source's `loop`. -/
def followCycle : Nat → Nat → List Nat → List Value → List Nat × List Value
  | 0, _, inverse, values => (inverse, values)
  | fuel + 1, dst, inverse, values =>
      match inverse[dst]? with
      | some next =>
          if next = dst then (inverse, values)
          else followCycle fuel dst (swapAt inverse dst next) (swapAt values dst next)
      | none => (inverse, values)

/-- The outer loop of a commit, from position `dst` on. -/
def applyInverse (len : Nat) : Nat → Nat → List Nat → List Value → List Nat × List Value
  | 0, _, inverse, values => (inverse, values)
  | n + 1, dst, inverse, values =>
      match followCycle (len + 1) dst inverse values with
      | (inverse, values) => applyInverse len n (dst + 1) inverse values

lemma followCycle_perm (fuel dst : Nat) (inverse : List Nat) (values : List Value) :
    (followCycle fuel dst inverse values).2.Perm values := by
  induction fuel generalizing inverse values with
  | zero => exact .refl _
  | succ fuel ih =>
      unfold followCycle
      split
      · split_ifs
        · exact .refl _
        · exact (ih _ _).trans (swapAt_perm _ _ _)
      · exact .refl _

/-- Whatever the inverse says, no element is lost or duplicated. -/
lemma applyInverse_perm (len n dst : Nat) (inverse : List Nat) (values : List Value) :
    (applyInverse len n dst inverse values).2.Perm values := by
  induction n generalizing dst inverse values with
  | zero => exact .refl _
  | succ n ih =>
      have := followCycle_perm (len + 1) dst inverse values
      exact (ih _ _ _).trans this

namespace SortState

/-- An index bank. -/
def bank (st : SortState) (i : Nat) : Option (Buf Nat) :=
  match i with
  | 0 => some st.banks.1
  | 1 => some st.banks.2
  | _ => none

/-- Replace an index bank. -/
def withBank (st : SortState) (i : Nat) (b : Buf Nat) : SortState :=
  match i with
  | 0 => { st with banks := (b, st.banks.2) }
  | 1 => { st with banks := (st.banks.1, b) }
  | _ => st

end SortState

namespace Store

/-! ## Guards -/

/-- Whether a value is a vector. -/
def isVec (s : Store) (v : Value) : Except Error Bool :=
  match v with
  | .heap _ => (s.tag v).map fun t => decide (t = .vec)
  | _ => .ok false

/-- The receiver of a sort has to be a vector that can be written. -/
def sortReceiver (s : Store) (v : Value) : Except Error Unit := do
  let vec ← s.isVec v
  if vec then
    match v with
    | .heap h => (s.mutable h).map fun _ => ()
    | _ => .error (err .invalidCode)
  else do
    let e ← s.missingMethod v "sort_by"
    .error e

/-- The elements move from the vector to its guard. -/
def lendElements (parent guard : Handle) (st : SortState) (values : Buf Value) (s : Store) : Store :=
  s.modifyTwo parent guard
    (fun e => { e with payload := .moved .vec, readers := exclusiveReaders })
    (fun e => { e with payload := .sortGuard { st with values := values } })

/-- Begin a sort.  Vectors of fewer than two elements need no guard and are represented by their
length. -/
def sortBegin (v : Value) : M Value := do
  read (·.sortReceiver v)
  match v with
  | .heap parent => do
      match ← read (·.payload parent) with
      | .list _ values => do
          let len := values.items.length
          if h : len < 2 then
            pure (.i64 (.ofNat len (Nat.lt_trans h I64.two_lt)))
          else do
            let needed ← ofExcept (okOr ((checkedMul len (2 * sizeUsize)).bind
              (checkedAdd · sizeSortState)) (err .storeCapacity))
            ensureRoom needed
            alloc (len * sizeUsize)
            let first ← ofExcept (okOr ((checkedMul len sizeUsize).bind
              (checkedAdd · sizeSortState)) (err .storeCapacity))
            let both ← ofExcept (okOr ((checkedMul len sizeUsize).bind (checkedAdd first ·))
              (err .storeCapacity))
            ensureRoom both
            alloc (len * sizeUsize)
            let bank := Buf.copy (List.range len)
            let st : SortState := ⟨parent, true, (bank, bank), .empty⟩
            let charged ← ofExcept st.bytes
            ensureRoom charged
            alloc sizeSortState
            match ← admitPayload (.sortGuard st) with
            | .heap guard => do
                match ← read (fun s => (s.entry parent).map Entry.payload) with
                | .list .vec values => do
                    update (lendElements parent guard st values)
                    pure (.heap guard)
                | _ => fail (err .invalidCode)
            | _ => fail (err .invalidCode)
      | _ => fail (err .invalidCode)
  | _ => fail (err .invalidCode)

/-- The state of an active guard. -/
def sortState (s : Store) (guard : Value) : Except Error SortState :=
  match guard with
  | .heap h => do
      match ← s.payload h with
      | .sortGuard st => do
          ensure (st.active = true) (err .invalidCode)
          let parent ← s.entry st.parent
          ensure (parent.readers = exclusiveReaders) (err .invalidCode)
          pure st
      | _ => .error (err .invalidCode)
  | _ => .error (err .invalidCode)

/-- Whether a guard is the length of a vector too short to need one. -/
def shortLen : Value → Option Nat
  | .i64 n => if n.val = 0 then some 0 else if n.val = 1 then some 1 else none
  | _ => none

/-- The number of elements under a guard. -/
def sortLen (s : Store) (guard : Value) : Except Error Nat :=
  match shortLen guard with
  | some n => .ok n
  | none => (s.sortState guard).map (·.banks.1.items.length)

/-- An index of a bank. -/
def sortLoad (s : Store) (guard : Value) (bank index : Nat) : Except Error Nat := do
  let st ← s.sortState guard
  okOr ((st.bank bank).bind (·.items[index]?)) (err .invalidCode)

/-- An element under a guard, retained. -/
def sortValue (guard : Value) (index : Nat) : M Value := do
  let st ← read (·.sortState guard)
  match st.values.items[index]? with
  | some v => do
      retain v
      pure v
  | none => fail (err .invalidCode)

/-- Store an index into a bank. -/
def sortStore (guard : Value) (bank index element : Nat) : M Unit := do
  let len ← read (·.sortLen guard)
  guardWith (element < len) (err .invalidCode)
  match guard with
  | .heap h => do
      match ← read (·.mutable h) with
      | .sortGuard st =>
          match st.bank bank with
          | some b => do
              guardWith (index < b.items.length) (err .invalidCode)
              setPayload h (.sortGuard (st.withBank bank (b.set index element)))
          | none => fail (err .invalidCode)
      | _ => fail (err .invalidCode)
  | _ => fail (err .invalidCode)

/-- The elements move back from the guard to its vector. -/
def returnElements (guard : Handle) (st : SortState) (values : Buf Value) (s : Store) : Store :=
  s.modifyTwo guard st.parent
    (fun e => { e with payload := .sortGuard { st with values := .empty, active := false } })
    (fun e => { e with payload := .list .vec values, readers := 0 })

/-- Apply the permutation of a bank and give the elements back.  The other bank is overwritten
even when the bank turns out not to be a permutation. -/
def sortCommit (guard : Value) (bank : Nat) : M Unit :=
  match shortLen guard with
  | some _ => guardWith (bank ≤ 1) (err .invalidCode)
  | none => do
      let _ ← read (·.sortState guard)
      guardWith (bank ≤ 1) (err .invalidCode)
      match guard with
      | .heap h => do
          let len ← read (·.sortLen guard)
          match ← read (·.mutable h) with
          | .sortGuard st =>
              match st.bank bank, st.bank (1 - bank) with
              | some source, some other => do
                  match invert len source.items len 0 (other.items.map fun _ => usizeMax) with
                  | (valid, inverse) => do
                      setPayload h (.sortGuard (st.withBank (1 - bank) (.filled other.capacity inverse)))
                      guardWith (valid = true) (err .invalidCode)
                      guardWith (st.values.items.length = len) (err .invalidCode)
                      match applyInverse len len 0 inverse st.values.items with
                      | (inverse, values) =>
                          update (returnElements h
                            (st.withBank (1 - bank) (.filled other.capacity inverse))
                            (.filled st.values.capacity values))
              | _, _ => fail (err .invalidCode)
          | _ => fail (err .invalidCode)
      | _ => fail (err .invalidCode)

/-! ## Lending the elements -/

open ErrState

variable {s t u : Store} {h k parent guard : Handle} {e : Entry} {own : Handle → Nat}
  {held : Option Hold} {st : SortState} {values : Buf Value}

/-- A new guard that has taken its vector's elements over. -/
lemma Admission.lend (hi : Inv own held s) (hm : s.mutable parent = .ok (.list .vec values))
    (hst : st.parent = parent ∧ st.active = true ∧ st.values = .empty)
    (ha : Admission (.sortGuard st) s t guard)
    (hc : Counts (own + (Value.heap guard).refs) (heldEdges held) t) (ht : Table t) :
    Inv (own + (Value.heap guard).refs) held (lendElements parent guard st values t) := by
  obtain ⟨-, e, he, hread, hp, -⟩ := mutable_eq_ok.1 hm
  obtain ⟨rfl, hact, hempty⟩ := hst
  obtain ⟨charged, -, hg⟩ := ha.lookup_new hi.table
  have hne : st.parent ≠ guard := by
    rintro heq
    have := ha.fresh
    rw [← heq, he] at this
    cases this
  obtain ⟨a, i, -, hx⟩ := ha.lookup_old hi.table hne
  rw [he] at hx
  have hxp : (grown (.sortGuard st) a i s.last st.parent e).payload = .list .vec values := hp
  refine
    { counts := hc.pair hx hg hne rfl rfl (fun j => ?_) ?_ rfl
      table := ht.of_same (sameTable_modifyTwo _ _ _ (fun _ => ⟨rfl, rfl⟩) fun _ => ⟨rfl, rfl⟩)
      leases := ?_
      held_owned := fun d hd => (hi.held_owned d hd).trans (Nat.le_add_right _ _) }
  · rw [hxp]
    simp only [newEntry, Payload.refs, Payload.children, refsIn_cons, hempty, Buf.empty, refsIn_nil]
    omega
  · rw [hxp]
    simp only [newEntry, Payload.edges, Payload.children, edgesIn_cons, hempty, Buf.empty,
      edgesIn_nil]
    omega
  intro k y hy
  have hls : (lendElements st.parent guard st values t).sum (·.leases k) = t.sum (·.leases k) := by
    have := sum_modifyTwo (f := fun e => { e with payload := .moved .vec, readers := exclusiveReaders })
      (g := fun e => { e with payload := .sortGuard { st with values := values } }) hx hg hne (·.leases k)
    rw [hxp] at this
    exact this
  have hhs : (lendElements st.parent guard st values t).sum (·.holds k) = t.sum (·.holds k) := by
    have := sum_modifyTwo (f := fun e => { e with payload := .moved .vec, readers := exclusiveReaders })
      (g := fun e => { e with payload := .sortGuard { st with values := values } }) hx hg hne (·.holds k)
    rw [hxp] at this
    exact Nat.add_right_cancel this
  rw [hls, hhs]
  rw [lendElements, at?_modifyTwo hx hg hne] at hy
  split_ifs at hy with h1 h2
  · subst h1
    obtain rfl := Option.some.inj hy
    rcases ha.leases hi k _ hg with ⟨-, hr, hl, hh⟩ | ⟨y, hk, -⟩
    · exact .inl ⟨hh, by rw [hl]; exact hr, by rw [hl]; decide⟩
    · exact absurd rfl hk
  · subst h2
    obtain rfl := Option.some.inj hy
    have hsum := ha.sum hi.table (·.holds st.parent)
    have hlsum := ha.sum hi.table (·.leases st.parent)
    have hone : (Payload.sortGuard st).holds st.parent = 1 := by
      simp [Payload.holds, Payload.exclusive, hact]
    have hzero : (Payload.sortGuard st).leases st.parent = 0 := rfl
    simp only [hone, hzero] at hsum hlsum
    rcases hi.leases _ _ he with ⟨b1, b2, -⟩ | ⟨-, -, b3, -⟩
    · exact .inr ⟨by omega, by omega, rfl, rfl⟩
    · rw [hread] at b3
      cases b3
  · rcases ha.leases hi k y hy with ⟨rfl, -⟩ | ⟨z, -, hz, hpay, -, hok, hcase⟩
    · exact absurd rfl h1
    · have hr : y.readers = z.readers := by
        rcases hcase with ⟨⟨iter, hiter⟩, -⟩ | ⟨-, hr⟩
        · cases hiter
        · exact hr
      have hsum := ha.sum hi.table (·.holds k)
      have hlsum := ha.sum hi.table (·.leases k)
      have hzero : (Payload.sortGuard st).holds k = 0 := by
        have hk : ¬ st.parent = k := fun hk => h2 hk.symm
        simp [Payload.holds, Payload.exclusive, hact, hk]
      have hlzero : (Payload.sortGuard st).leases k = 0 := rfl
      simp only [hzero, hlzero] at hsum hlsum
      rcases hok with ⟨b1, b2, b3⟩ | ⟨b1, b2, b3, b4⟩
      · exact .inl ⟨by omega, by omega, by omega⟩
      · exact .inr ⟨by omega, by omega, hr.trans b3, hpay.trans b4⟩

/-! ## Giving the elements back -/

/-- What an active guard knows of its vector. -/
lemma Inv.guarded (hi : Inv own held s) (hg : s.at? guard = some e)
    (hgp : e.payload = .sortGuard st) (hact : st.active = true) :
    ∃ x, s.at? st.parent = some x ∧ x.readers = exclusiveReaders ∧ x.payload = .moved .vec ∧
      s.sum (·.leases st.parent) = 0 ∧ s.sum (·.holds st.parent) + heldAt held st.parent = 1 ∧
      st.parent ≠ guard := by
  have hhold : e.payload.holds st.parent = 1 := by
    simp [hgp, Payload.holds, Payload.exclusive, hact]
  have href := e.payload.leases_add_holds_le_refs st.parent
  have h1 := le_sum (·.refs st.parent) hg
  have h2 := le_sum (·.holds st.parent) hg
  obtain ⟨x, hx⟩ := hi.counts.live_of_refs (k := st.parent) (by omega)
  rcases hi.leases _ _ hx with ⟨a, -, -⟩ | ⟨a, b, c, d⟩
  · omega
  · refine ⟨x, hx, c, d, b, a, ?_⟩
    intro heq
    rw [heq, hg] at hx
    obtain rfl := Option.some.inj hx
    rw [hgp] at d
    cases d

/-- A guard gives its elements back, in any order. -/
lemma Inv.return {st' : SortState} (hi : Inv own held s) (hg : s.at? guard = some e)
    (hgp : e.payload = .sortGuard st) (hact : st.active = true) (hpar : st'.parent = st.parent)
    (hperm : values.items.Perm st.values.items) :
    Inv own held (returnElements guard st' values s) := by
  obtain ⟨parent', active', banks', values'⟩ := st'
  obtain rfl : parent' = st.parent := hpar
  obtain ⟨x, hx, -, hxp, hl, hh, hne⟩ := hi.guarded hg hgp hact
  have hsum : ∀ φ : Payload → Nat,
      (returnElements guard ⟨st.parent, active', banks', values'⟩ values s).sum φ +
        φ (.sortGuard st) + φ (.moved .vec) =
      s.sum φ + φ (.sortGuard ⟨st.parent, false, banks', .empty⟩) + φ (.list .vec values) :=
    fun φ => by
      have := sum_modifyTwo
        (f := fun e => { e with payload := .sortGuard ⟨st.parent, false, banks', .empty⟩ })
        (g := fun e => { e with payload := .list .vec values, readers := 0 }) hg hx hne.symm φ
      rw [hgp, hxp] at this
      exact this
  refine ⟨?_, ?_, fun k y hy => ?_, hi.held_owned⟩
  · refine hi.counts.pair hg hx hne.symm rfl rfl (fun j => ?_) ?_ rfl
    · rw [hgp, hxp]
      change (Value.heap st.parent).refs j + refsIn values.items j =
        refsIn (.heap st.parent :: st.values.items) j + 0
      rw [refsIn_cons, refsIn_perm hperm]
      omega
    · rw [hgp, hxp]
      change (Value.heap st.parent).heapEdge + edgesIn values.items =
        edgesIn (.heap st.parent :: st.values.items) + 0
      rw [edgesIn_cons, edgesIn_perm hperm]
      omega
  · exact hi.table.of_same
      (sameTable_modifyTwo _ _ _ (fun _ => ⟨rfl, rfl⟩) fun _ => ⟨rfl, rfl⟩)
  · have hls : (returnElements guard ⟨st.parent, active', banks', values'⟩ values s).sum (·.leases k) = s.sum (·.leases k) :=
      hsum (·.leases k)
    have hhs := hsum (·.holds k)
    have z1 : (Payload.moved .vec).holds k = 0 := rfl
    have z2 : (Payload.list .vec values).holds k = 0 := rfl
    have z3 : (Payload.sortGuard ⟨st.parent, false, banks', .empty⟩).holds k = 0 := rfl
    simp only [z1, z2, z3] at hhs
    rw [returnElements, at?_modifyTwo hg hx hne.symm] at hy
    split_ifs at hy with h1 h2
    · subst h1
      obtain rfl := Option.some.inj hy
      have hone : (Payload.sortGuard st).holds st.parent = 1 := by
        simp [Payload.holds, Payload.exclusive, hact]
      exact .inl ⟨by omega, by rw [hls, hl], by rw [hls, hl]; decide⟩
    · have hzero : (Payload.sortGuard st).holds k = 0 := by
        have hk : ¬ st.parent = k := fun hk => h1 hk.symm
        simp [Payload.holds, Payload.exclusive, hact, hk]
      subst h2
      obtain rfl := Option.some.inj hy
      rcases hi.leases _ _ hg with ⟨a, b, c⟩ | ⟨-, -, -, d⟩
      · exact .inl ⟨by omega, by rw [hls]; exact b, by rw [hls]; exact c⟩
      · rw [hgp] at d
        cases d
    · have hzero : (Payload.sortGuard st).holds k = 0 := by
        have hk : ¬ st.parent = k := fun hk => h1 hk.symm
        simp [Payload.holds, Payload.exclusive, hact, hk]
      rcases hi.leases _ _ hy with ⟨a, b, c⟩ | ⟨a, b, c, d⟩
      · exact .inl ⟨by omega, by rw [hls]; exact b, by rw [hls]; exact c⟩
      · exact .inr ⟨by omega, by rw [hls]; exact b, c, d⟩

/-! ## The operations -/

lemma sortReceiver_eq_ok {v : Value} (hv : s.sortReceiver v = .ok ()) :
    ∃ h p, v = .heap h ∧ s.mutable h = .ok p ∧ p.tag = .vec := by
  unfold sortReceiver at hv
  rw [Except.bind_eq_ok] at hv
  obtain ⟨vec, htag, hv⟩ := hv
  cases v with
  | heap h =>
      split_ifs at hv with hvec
      · rcases hm : s.mutable h with x | p
        · simp [hm, Except.map] at hv
        · refine ⟨h, p, rfl, hm, ?_⟩
          obtain ⟨-, e, he, -, rfl, -⟩ := mutable_eq_ok.1 hm
          have hent : s.entry h = .ok e := entry_eq_ok.2 ⟨(mutable_eq_ok.1 hm).1, he⟩
          simp only [isVec, tag, hent, Except.map] at htag
          have := Except.ok.inj htag
          rw [← this] at hvec
          simpa using hvec
      · rw [Except.bind_eq_ok] at hv
        obtain ⟨x, -, hx⟩ := hv
        cases hx
  | _ =>
      obtain rfl := Except.ok.inj htag
      simp only [Bool.false_eq_true, if_false, Except.bind_eq_ok] at hv
      obtain ⟨x, -, hx⟩ := hv
      cases hx

/-- What the beginning of a sort does: the elements of the vector are in a new guard, with both
banks in order. -/
structure Lent (s t : Store) (parent guard : Handle) (values : Buf Value) : Prop where
  fresh : s.at? guard = none
  taken : ∃ e, s.at? parent = some e ∧ e.payload = .list .vec values
  made : ∃ e, t.at? guard = some e ∧ e.readers = 0 ∧ e.payload = .sortGuard ⟨parent, true,
    (Buf.copy (List.range values.items.length), Buf.copy (List.range values.items.length)), values⟩
  long : 2 ≤ values.items.length
  room : values.items.length ≤ usizeMax
  others : ∀ k x, t.at? k = some x → k ≠ guard →
    x.payload = .moved .vec ∨ ∃ y, s.at? k = some y ∧ x.payload = y.payload ∧ x.readers = y.readers

/-- How a sort begins: a vector too short to need a guard is left alone. -/
inductive Begun (s : Store) : Value → Value → Store → Prop
  | short {parent : Handle} {e : Entry} {values : Buf Value} (lookup : s.at? parent = some e)
      (payload : e.payload = .list .vec values) (h : values.items.length < 2) :
      Begun s (.heap parent)
        (.i64 (.ofNat values.items.length (Nat.lt_trans h I64.two_lt))) s
  | lent {t : Store} {parent guard : Handle} {values : Buf Value}
      (lent : Lent s t parent guard values) : Begun s (.heap parent) (.heap guard) t

/-- Reservations in front of the sort do not show. -/
lemma Lent.of_reserved (hl : Lent t u parent guard values) (hr : Reserved s t) :
    Lent s u parent guard values where
  fresh := (hr.at? guard).symm.trans hl.fresh
  taken := by
    obtain ⟨e, he, hp⟩ := hl.taken
    exact ⟨e, (hr.at? parent).symm.trans he, hp⟩
  made := hl.made
  long := hl.long
  room := hl.room
  others := by
    intro k x hk hne
    rw [← hr.at? k]
    exact hl.others k x hk hne

lemma len_le_of_needed {n needed : Nat} (h : okOr ((checkedMul n (2 * sizeUsize)).bind
    (checkedAdd · sizeSortState)) (err .storeCapacity) = .ok needed) : n ≤ usizeMax := by
  rw [okOr_eq_ok, Option.bind_eq_some_iff] at h
  obtain ⟨bytes, hbytes, -⟩ := h
  have hle := checkedMul_le hbytes
  have hsize : 2 * sizeUsize = 16 := rfl
  rw [hsize] at hle
  omega

/-- The elements of the vector are lent to the new guard. -/
lemma Admission.lent {a : Buf Nat × Buf Nat} (hi : Inv own held s)
    (hm : s.mutable parent = .ok (.list .vec values))
    (ha : Admission (.sortGuard ⟨parent, true, a, .empty⟩) s t guard) (hlong : 2 ≤ values.items.length)
    (hroom : values.items.length ≤ usizeMax)
    (hbanks : a = (Buf.copy (List.range values.items.length),
      Buf.copy (List.range values.items.length))) :
    Lent s (lendElements parent guard ⟨parent, true, a, .empty⟩ values t) parent guard values := by
  obtain ⟨-, e, he, hread, hp, -⟩ := mutable_eq_ok.1 hm
  obtain ⟨charged, -, hg⟩ := ha.lookup_new hi.table
  have hne : parent ≠ guard := by
    rintro rfl
    rw [ha.fresh] at he
    cases he
  obtain ⟨b, i, -, hx⟩ := ha.lookup_old hi.table hne
  rw [he] at hx
  refine ⟨ha.fresh, ⟨e, he, hp⟩, ?_, hlong, hroom, ?_⟩
  · have hmade := at?_modifyTwo hx hg hne
      (f := fun e => { e with payload := .moved .vec, readers := exclusiveReaders })
      (g := fun e => { e with payload := .sortGuard ⟨parent, true, a, values⟩ }) guard
    rw [if_pos rfl] at hmade
    refine ⟨_, hmade, rfl, ?_⟩
    rw [hbanks]
  · intro k x hk hkg
    rw [lendElements, at?_modifyTwo hx hg hne, if_neg hkg] at hk
    split_ifs at hk
    · obtain rfl := Option.some.inj hk
      exact .inl rfl
    · right
      obtain ⟨b, j, hr, hold⟩ := ha.lookup_old hi.table hkg
      rw [hold, Option.map_eq_some_iff] at hk
      obtain ⟨y, hy, rfl⟩ := hk
      exact ⟨y, hy, rfl, rfl⟩

lemma sortBegin_spec (hi : Inv own held s) (hw : s.work = []) (v : Value) :
    wp (sortBegin v) (fun r t => (Inv (own + r.refs) held t ∧ t.work = []) ∧ Begun s v r t)
      (fun _ t => Reserved s t) s := by
  refine wp_read_bind (fun _ _ => .refl s) fun _ hv => ?_
  obtain ⟨parent, p, rfl, hm, htag⟩ := sortReceiver_eq_ok hv
  obtain ⟨hop, e, he, hread, hp, hmoved⟩ := mutable_eq_ok.1 hm
  refine wp_read_bind (fun _ _ => .refl s) fun q hq => ?_
  obtain ⟨-, e', he', rfl, -⟩ := payload_eq_ok.1 hq
  obtain rfl := Option.some.inj (he.symm.trans he')
  split
  · next tag values heq =>
    obtain rfl : tag = .vec := by
      rw [← hp, heq] at htag
      exact htag
    rw [← hp, heq] at hm
    simp only
    split_ifs with hlong
    · refine ⟨⟨?_, hw⟩, .short he heq hlong⟩
      rw [refs_eq_zero_of_scalar rfl, add_zero]
      exact hi
    · refine wp_ofExcept_bind (fun _ _ => .refl s) fun _ hneeded => ?_
      refine wp_ensureRoom_bind (.refl s) fun _ => ?_
      refine wp_alloc_bind (.refl s) fun s₁ hr₁ => ?_
      refine wp_ofExcept_bind (fun _ _ => hr₁) fun _ _ => wp_ofExcept_bind (fun _ _ => hr₁) fun _ _ => ?_
      refine wp_ensureRoom_bind hr₁ fun _ => wp_alloc_bind hr₁ fun s₂ hr₂ => ?_
      have hr := hr₁.trans hr₂
      refine wp_ofExcept_bind (fun _ _ => hr) fun _ _ => wp_ensureRoom_bind hr fun _ => ?_
      refine wp_alloc_bind hr fun s₃ hr₃ => ?_
      have hr := hr.trans hr₃
      have hi₃ := hi.reserved hr
      refine wp_seq (admit_spec hi₃ _) (fun _ _ h => hr.trans h) ?_
      rintro _ t ⟨guard, rfl, ha, hc, ht⟩
      have hm₃ : s₃.mutable parent = .ok (.list .vec values) := by
        unfold «mutable»
        rw [hr.entry]
        exact hm
      have hinv := ha.lend hi₃ hm₃ ⟨rfl, rfl, rfl⟩ hc ht
      have hlent := ha.lent hi₃ hm₃ (Nat.le_of_not_lt hlong) (len_le_of_needed hneeded) rfl
      have hne : parent ≠ guard := by
        rintro rfl
        have := ha.fresh
        rw [hr.at?, he] at this
        cases this
      obtain ⟨a, i, -, hx⟩ := ha.lookup_old hi₃.table hne
      rw [hr.at?, he] at hx
      have hent : t.entry parent = .ok (grown _ a i s₃.last parent e) :=
        entry_eq_ok.2 ⟨ht.isOpen, hx⟩
      refine wp_read_bind (fun y hy => ?_) fun y hy => ?_
      · rw [hent] at hy
        cases hy
      · rw [hent] at hy
        obtain rfl := Except.ok.inj hy
        have hpay : (grown (.sortGuard ⟨parent, true, (Buf.copy (List.range values.items.length),
            Buf.copy (List.range values.items.length)), .empty⟩) a i s₃.last parent e).payload =
            .list .vec values := heq
        rw [hpay]
        simp only
        rw [wp_update_bind]
        refine ⟨⟨hinv, ?_⟩, .lent (hlent.of_reserved hr)⟩
        change t.work = []
        rw [ha.fields.1, hr.work, hw]
  · exact .refl s

lemma sortBegin_atomic (hi : Inv own held s) (hw : s.work = []) (v : Value) :
    Atomic own held Value.refs (sortBegin v) s :=
  wp_mono (sortBegin_spec hi hw v) (fun _ _ h => h.1) fun _ _ h => h

/-- A change of the banks is no change of ownership. -/
lemma exchanges_banks {st' : SortState} (hp : st'.parent = st.parent) (ha : st'.active = st.active)
    (hv : st'.values = st.values) :
    Exchanges (.sortGuard st) (.sortGuard st') .unit .unit := by
  refine ⟨fun k => ?_, ?_, fun k => rfl, fun k => ?_⟩
  · simp only [Payload.refs, Payload.children, hp, hv]
  · simp only [Payload.edges, Payload.children, hp, hv]
  · simp [Payload.holds, Payload.exclusive, hp, ha]

lemma withBank_fields (st : SortState) (i : Nat) (b : Buf Nat) :
    (st.withBank i b).parent = st.parent ∧ (st.withBank i b).active = st.active ∧
      (st.withBank i b).values = st.values := by
  unfold SortState.withBank
  split <;> exact ⟨rfl, rfl, rfl⟩

/-- Rewriting the banks of a guard in place. -/
lemma setBank_spec (hi : Inv own held s) (hw : s.work = [])
    (hm : s.mutable h = .ok (.sortGuard st)) (i : Nat) (b : Buf Nat) :
    wp (setPayload h (.sortGuard (st.withBank i b)))
      (fun _ t => Inv own held t ∧ t.work = [] ∧
        t.mutable h = .ok (.sortGuard (st.withBank i b))) (fun _ _ => False) s := by
  obtain ⟨hop, e, he, hread, hp, -⟩ := mutable_eq_ok.1 hm
  obtain ⟨h1, h2, h3⟩ := withBank_fields st i b
  obtain ⟨hinv, hwt⟩ : AtomicFrom s own held (fun _ => 0)
      (setPayload h (.sortGuard (st.withBank i b))) s :=
    rewrite_spec (c := fun n => n) (b := s.bytes) hi hw he hread hp rfl hi.counts.bytes_le rfl
      (exchanges_banks h1 h2 h3)
  rw [add_zero] at hinv
  exact ⟨hinv, hwt, mutable_eq_ok.2 ⟨hop, _, at?_modify_self he _, hread, rfl, rfl⟩⟩

lemma sortStore_atomic (hi : Inv own held s) (hw : s.work = []) (guard : Value)
    (bank index element : Nat) :
    Atomic own held (fun _ => 0) (sortStore guard bank index element) s := by
  refine atomic_read_bind (.refl s) fun len _ => atomic_guard_bind (.refl s) fun _ => ?_
  split
  · refine atomic_read_bind (.refl s) fun p hm => ?_
    split
    · split
      · refine atomic_guard_bind (.refl s) fun _ => wp_mono (setBank_spec hi hw hm _ _) ?_
          fun _ _ h => h.elim
        rintro - t ⟨hit, hwt, -⟩
        exact ⟨by simpa using hit, hwt⟩
      · exact atomic_fail (.refl s) _
    · exact atomic_fail (.refl s) _
  · exact atomic_fail (.refl s) _

lemma sortState_eq_ok {guard : Value} (hs : s.sortState guard = .ok st) :
    ∃ h, guard = .heap h ∧ s.payload h = .ok (.sortGuard st) ∧ st.active = true := by
  unfold sortState at hs
  split at hs
  · next h =>
    rw [Except.bind_eq_ok] at hs
    obtain ⟨p, hp, hs⟩ := hs
    split at hs
    · simp only [Except.bind_eq_ok, ensure_eq_ok] at hs
      obtain ⟨-, hact, x, -, -, -, hs⟩ := hs
      obtain rfl := Except.ok.inj hs
      exact ⟨h, rfl, hp, hact⟩
    · cases hs
  · cases hs

/-- A commit keeps the invariant whether or not the bank is a permutation. -/
lemma sortCommit_keeps (hi : Inv own held s) (hw : s.work = []) (guard : Value) (bank : Nat) :
    Keeps own held (fun _ => 0) (sortCommit guard bank) s := by
  have hself : Inv own held s ∧ s.work = [] := ⟨hi, hw⟩
  unfold sortCommit
  split
  · exact wp_guardWith (fun _ => hself) fun _ => ⟨by simpa using hi, hw⟩
  · refine wp_read_bind (fun _ _ => hself) fun st₀ hst => wp_guardWith_bind (fun _ => hself) fun _ => ?_
    obtain ⟨h, rfl, hpay, hact⟩ := sortState_eq_ok hst
    refine wp_read_bind (fun _ _ => hself) fun len _ => wp_read_bind (fun _ _ => hself) fun p hm => ?_
    obtain ⟨-, e, he, -, hep, -⟩ := mutable_eq_ok.1 hm
    obtain ⟨-, e', he', hep', -⟩ := payload_eq_ok.1 hpay
    obtain rfl := Option.some.inj (he.symm.trans he')
    obtain rfl : p = .sortGuard st₀ := by rw [← hep, hep']
    simp only
    split
    · next source other _ _ =>
      refine wp_seq (setBank_spec hi hw hm _ _) (fun _ _ h => h.elim) ?_
      rintro - t ⟨hit, hwt, hmt⟩
      refine wp_guardWith_bind (fun _ => ⟨hit, hwt⟩) fun _ => ?_
      refine wp_guardWith_bind (fun _ => ⟨hit, hwt⟩) fun _ => ?_
      obtain ⟨-, x, hx, -, hxp, -⟩ := mutable_eq_ok.1 hmt
      obtain ⟨h1, h2, h3⟩ := withBank_fields st₀ (1 - bank) (.filled other.capacity
        (invert len source.items len 0 (other.items.map fun _ => usizeMax)).2)
      rw [wp_update]
      refine ⟨?_, hwt⟩
      rw [add_zero]
      refine hit.return hx hxp (h2.trans hact) ?_ ?_
      · rw [h1]
        exact (withBank_fields _ _ _).1
      · rw [h3]
        exact applyInverse_perm _ _ _ _ _
    · exact hself

/-- A retained value, from any observation. -/
lemma retained_atomic (hi : Inv own held s) (hw : s.work = []) (v : Value) :
    Atomic own held Value.refs (do retain v; pure v) s := by
  refine wp_seq (retain_inv hi v) (fun _ _ h => h ▸ .refl s) ?_
  rintro - t ⟨rfl, hit⟩
  exact ⟨hit, hw⟩

lemma sortValue_atomic (hi : Inv own held s) (hw : s.work = []) (guard : Value) (index : Nat) :
    Atomic own held Value.refs (sortValue guard index) s := by
  refine atomic_read_bind (.refl s) fun st _ => ?_
  split
  · exact retained_atomic hi hw _
  · exact atomic_fail (.refl s) _

end Store

end Rnx
