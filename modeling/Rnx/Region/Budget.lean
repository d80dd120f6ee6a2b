import Mathlib.Algebra.Order.BigOperators.Group.List
import Mathlib.Data.List.Perm.Basic
import Rnx.Lib.Transition
import Rnx.Store.Value

/-!
# The bytes of the analysis buffers

`Budget`, `BVec` and `Held` of `region/budget.rs`: every buffer of the analysis charges the capacity
it is about to request before it allocates, and gives the charge back after it is freed; while it
grows, the old buffer and the new one are both charged.

An operation that panics, on a debug assertion or an arithmetic underflow, has no result here, so
that it never does is part of what is proved.  The allocator is asked for an exact capacity and may
refuse, or break its promise and give another one.
-/

namespace Rnx

namespace Region

/-- `Grow`: why a buffer could not grow. -/
inductive Grow
  | alloc | budget | invariant
deriving DecidableEq, Repr

/-- `Budget`. -/
structure Budget where
  limit : Nat
  used : Nat
  peak : Nat
  violations : Nat
deriving DecidableEq, Repr

namespace Budget

/-- `Budget::new`. -/
def new (limit : Nat) : Budget := ⟨limit, 0, 0, 0⟩

variable (b : Budget)

/-- `Budget::charge`. -/
def charge (bytes : Nat) : Except Grow Budget := do
  let next ← okOr (checkedAdd b.used bytes) .budget
  if b.limit < next then .error .budget
  else .ok { b with used := next, peak := if b.peak < next then next else b.peak }

/-- `Budget::release`, with its debug assertion. -/
def release (bytes : Nat) : Option Budget :=
  if bytes ≤ b.used then some { b with used := b.used - bytes } else none

/-- One more violation, saturating at `u32::MAX`. -/
def violated : Budget := { b with violations := min (b.violations + 1) (2 ^ 32 - 1) }

end Budget

/-- The capacity of a full vector after a push (`amortized`). -/
def amortized (size cap : Nat) : Option Nat :=
  let min := if size = 1 then 8 else if size ≤ 1024 then 4 else 1
  match checkedMul cap 2, checkedAdd cap 1 with
  | some doubled, some plus => some (max (max min doubled) plus)
  | _, _ => none

/-- What the allocator answers an exact reservation: a buffer, whose capacity should be that which
was asked for. -/
inductive Reservation
  | refused
  | granted (capacity : Nat)
deriving DecidableEq, Repr

/-- `BVec`: the size of its elements, the vector and its charge. -/
structure BVec (α : Type) where
  size : Nat
  items : List α
  capacity : Nat
  charged : Nat
deriving DecidableEq, Repr

namespace BVec

variable {α : Type}

/-- `BVec::new`. -/
def new (size : Nat) : BVec α := ⟨size, [], 0, 0⟩

variable (v : BVec α)

/-- Without its buffer. -/
def freed : BVec α := { v with items := [], capacity := 0, charged := 0 }

/-- `BVec::grow_to`. -/
def growTo (capacity : Nat) (r : Reservation) (b : Budget) :
    Option (Except Grow Unit × BVec α × Budget) :=
  if v.capacity < capacity then
    match checkedMul capacity v.size with
    | none => some (.error .budget, v, b)
    | some bytes =>
        match b.charge bytes with
        | .error e => some (.error e, v, b)
        | .ok charged =>
            (checkedSub capacity v.items.length).bind fun _ =>
              match r with
              | .refused => (charged.release bytes).map fun b => (.error .alloc, v, b)
              | .granted real =>
                  if real ≠ capacity then
                    ((charged.release bytes).bind (·.release v.charged)).map fun b =>
                      (.error .invariant, v.freed, b.violated)
                  else
                    (charged.release v.charged).map fun b =>
                      (.ok (), { v with capacity := capacity, charged := bytes }, b)
  else none

/-- Something done to the items once there is room. -/
def within (f : List α → List α) :
    Except Grow Unit × BVec α × Budget → Except Grow Unit × BVec α × Budget
  | (.ok (), v, b) => (.ok (), { v with items := f v.items }, b)
  | (.error e, v, b) => (.error e, v, b)

/-- `BVec::push`. -/
def push (value : α) (r : Reservation) (b : Budget) : Option (Except Grow Unit × BVec α × Budget) :=
  if v.items.length = v.capacity then
    match amortized v.size v.capacity with
    | none => some (.error .budget, v, b)
    | some capacity => (v.growTo capacity r b).map (within (· ++ [value]))
  else some (within (· ++ [value]) (.ok (), v, b))

/-- `Vec::try_resize`, where there is room. -/
def resized (len : Nat) (value : α) (items : List α) : List α :=
  items.take len ++ List.replicate (len - items.length) value

/-- `BVec::resize`. -/
def resize (len : Nat) (value : α) (r : Reservation) (b : Budget) :
    Option (Except Grow Unit × BVec α × Budget) :=
  if v.capacity < len then (v.growTo len r b).map (within (resized len value))
  else some (within (resized len value) (.ok (), v, b))

end BVec

/-! ## Buffers and their owners -/

/-- What holds a charge: a vector, or the bytes `into_parts` handed over (`Held`). -/
inductive Owner (α : Type)
  | vec (v : BVec α)
  | held (bytes : Nat)
deriving DecidableEq, Repr

/-- The bytes an owner holds. -/
def Owner.charged {α : Type} : Owner α → Nat
  | .vec v => v.charged
  | .held bytes => bytes

/-- A budget and the owners of its charges. -/
structure Analysis (α : Type) where
  budget : Budget
  owners : List (Owner α)
deriving DecidableEq, Repr

/-- What the analysis does with its buffers. -/
inductive BufferEvent (α : Type)
  | new (size : Nat)
  | withCapacity (size capacity : Nat) (r : Reservation)
  | push (i : Nat) (value : α) (r : Reservation)
  | resize (i len : Nat) (value : α) (r : Reservation)
  | pop (i : Nat)
  | write (i j : Nat) (value : α)
  | intoParts (i : Nat)
  | drop (i : Nat)

namespace Analysis

variable {α : Type} (s : Analysis α)

/-- The vector at a place. -/
def vec (i : Nat) : Option (BVec α) :=
  match s.owners[i]? with
  | some (.vec v) => some v
  | _ => none

/-- A vector after an operation on it. -/
def put (i : Nat) (result : Except Grow Unit × BVec α × Budget) : Analysis α × Except Grow Unit :=
  (⟨result.2.2, s.owners.set i (.vec result.2.1)⟩, result.1)

/-- A new vector, which is dropped when it got no buffer. -/
def add : Except Grow Unit × BVec α × Budget → Option (Analysis α × Except Grow Unit)
  | (.ok (), v, b) => some (⟨b, s.owners ++ [.vec v]⟩, .ok ())
  | (.error e, v, b) => (b.release v.charged).map fun b => (⟨b, s.owners⟩, .error e)

/-- One operation. -/
def step : BufferEvent α → Option (Analysis α × Except Grow Unit)
  | .new size => if size = 0 then none else s.add (.ok (), .new size, s.budget)
  | .withCapacity size capacity r =>
      if size = 0 then none
      else if 0 < capacity then ((BVec.new size).growTo capacity r s.budget).bind s.add
      else s.add (.ok (), .new size, s.budget)
  | .push i value r => (s.vec i).bind fun v => (v.push value r s.budget).map (s.put i)
  | .resize i len value r => (s.vec i).bind fun v => (v.resize len value r s.budget).map (s.put i)
  | .pop i => (s.vec i).map fun v => s.put i (.ok (), { v with items := v.items.dropLast }, s.budget)
  | .write i j value =>
      (s.vec i).bind fun v =>
        if j < v.items.length then some (s.put i (.ok (), { v with items := v.items.set j value }, s.budget))
        else none
  | .intoParts i =>
      -- What is left of the vector is dropped, and has no charge.
      (s.vec i).bind fun v => (s.budget.release v.freed.charged).map fun b =>
        (⟨b, s.owners.set i (.held v.charged)⟩, .ok ())
  | .drop i =>
      s.owners[i]?.bind fun owner => (s.budget.release owner.charged).map fun b =>
        (⟨b, s.owners.eraseIdx i⟩, .ok ())

end Analysis

/-- The buffers of an analysis under a limit. -/
def buffers (α : Type) (limit : Nat) : Machine (Analysis α) (BufferEvent α) (Except Grow Unit) where
  start s := s = ⟨.new limit, []⟩
  next s e := s.step e

/-! ## Growth -/

/-- The capacity an amortized push asks for, unless it overflows. -/
def pushed (size cap : Nat) : Nat :=
  max (max (if size = 1 then 8 else if size ≤ 1024 then 4 else 1) (cap * 2)) (cap + 1)

lemma amortized_eq {size cap : Nat} :
    amortized size cap = if max (cap * 2) (cap + 1) ≤ usizeMax then some (pushed size cap) else none := by
  unfold amortized pushed checkedMul checkedAdd
  by_cases h₁ : cap * 2 ≤ usizeMax
  · by_cases h₂ : cap + 1 ≤ usizeMax
    · simp [h₁, h₂]
    · simp [h₁, h₂]
  · simp [h₁]

/-- What an owner may rely on: the whole capacity is charged. -/
structure BVec.Sound {α : Type} (v : BVec α) : Prop where
  size_pos : 0 < v.size
  charged_eq : v.charged = v.capacity * v.size
  length_le : v.items.length ≤ v.capacity

/-- What a budget may rely on. -/
structure Budget.Sound (b : Budget) : Prop where
  used_le : b.used ≤ b.peak
  peak_le : b.peak ≤ b.limit
  limit_le : b.limit ≤ usizeMax

/-- The budget after `bytes` more were charged for a while, and `used` of all is left. -/
def Budget.passed (b : Budget) (bytes used : Nat) : Budget :=
  { b with used := used, peak := max b.peak (b.used + bytes) }

/-- What a growth comes to: the capacity asked for, charged in place of the old one; or a refusal
that changes nothing; or no buffer and no charge. -/
inductive Grown {α : Type} (v : BVec α) (b : Budget) (capacity : Nat) :
    Except Grow Unit → BVec α → Budget → Prop
  | ok (hlt : v.capacity < capacity) (hfits : b.used + capacity * v.size ≤ b.limit) :
      Grown v b capacity (.ok ()) { v with capacity := capacity, charged := capacity * v.size }
        (b.passed (capacity * v.size) (b.used + capacity * v.size - v.charged))
  | alloc (hfits : b.used + capacity * v.size ≤ b.limit) :
      Grown v b capacity (.error .alloc) v (b.passed (capacity * v.size) b.used)
  | budget (hover : b.limit < b.used + capacity * v.size) :
      Grown v b capacity (.error .budget) v b
  | invariant (hfits : b.used + capacity * v.size ≤ b.limit) :
      Grown v b capacity (.error .invariant) v.freed
        (b.passed (capacity * v.size) (b.used - v.charged)).violated

/-- A change of the items that may need another capacity first. -/
inductive Provided {α : Type} (v : BVec α) (b : Budget) (f : List α → List α) :
    Option Nat → Except Grow Unit → BVec α → Budget → Prop
  | room : Provided v b f none (.ok ()) { v with items := f v.items } b
  | grown {capacity : Nat} {v' : BVec α} {b' : Budget} (h : Grown v b capacity (.ok ()) v' b') :
      Provided v b f (some capacity) (.ok ()) { v' with items := f v'.items } b'
  | refused {capacity : Nat} {e : Grow} {v' : BVec α} {b' : Budget}
      (h : Grown v b capacity (.error e) v' b') : Provided v b f (some capacity) (.error e) v' b'

section Growth

variable {α : Type} {v v' : BVec α} {b b' : Budget} {bytes capacity : Nat} {r : Reservation}
  {result : Except Grow Unit}

lemma Budget.charge_ok (hb : b.Sound) (h : b.used + bytes ≤ b.limit) :
    b.charge bytes = .ok (b.passed bytes (b.used + bytes)) := by
  have hsome : checkedAdd b.used bytes = some (b.used + bytes) :=
    if_pos (h.trans hb.limit_le)
  unfold charge
  rw [hsome]
  show (if b.limit < b.used + bytes then _ else _) = _
  rw [if_neg (Nat.not_lt.2 h)]
  unfold passed
  congr 2
  split_ifs with hlt <;> omega

lemma Budget.charge_refused (h : b.limit < b.used + bytes) :
    b.charge bytes = .error .budget := by
  unfold charge checkedAdd
  split_ifs with hle
  · show (if b.limit < b.used + bytes then _ else _) = _
    rw [if_pos h]
  · rfl

lemma Budget.release_passed {used n : Nat} (h : n ≤ used) :
    (b.passed bytes used).release n = some (b.passed bytes (used - n)) :=
  if_pos h

/-- A growth never panics. -/
lemma growTo_spec (hv : v.Sound) (hb : b.Sound) (hcharged : v.charged ≤ b.used)
    (hlt : v.capacity < capacity) (r : Reservation) :
    ∃ result v' b', v.growTo capacity r b = some (result, v', b') ∧
      Grown v b capacity result v' b' := by
  unfold BVec.growTo
  rw [if_pos hlt]
  by_cases hfits : b.used + capacity * v.size ≤ b.limit
  · have hmul : checkedMul capacity v.size = some (capacity * v.size) :=
      if_pos (by have := hb.limit_le; omega)
    have hsub : checkedSub capacity v.items.length = some (capacity - v.items.length) :=
      if_pos (by have := hv.length_le; omega)
    rw [hmul]
    simp only [b.charge_ok hb hfits, hsub, Option.bind_some]
    have hback : (b.passed (capacity * v.size) (b.used + capacity * v.size)).release
        (capacity * v.size) = some (b.passed (capacity * v.size) b.used) := by
      rw [Budget.release_passed (Nat.le_add_left ..), Nat.add_sub_cancel]
    cases r with
    | refused => exact ⟨_, _, _, by rw [hback]; rfl, .alloc hfits⟩
    | granted real =>
      dsimp only
      by_cases hreal : real = capacity
      · refine ⟨_, _, _, ?_, .ok hlt hfits⟩
        rw [if_neg (not_not.2 hreal), Budget.release_passed (Nat.le_add_right_of_le hcharged)]
        rfl
      · refine ⟨_, _, _, ?_, .invariant hfits⟩
        rw [if_pos hreal, hback, Option.bind_some, Budget.release_passed hcharged]
        rfl
  · have hover := Nat.lt_of_not_le hfits
    refine ⟨_, _, _, ?_, .budget hover⟩
    unfold checkedMul
    split_ifs with hmul
    · simp only [b.charge_refused hover]
    · rfl

/-- A growth leaves sound what it grows. -/
lemma Grown.sound (h : Grown v b capacity result v' b') (hv : v.Sound) (hb : b.Sound)
    (hcharged : v.charged ≤ b.used) :
    v'.Sound ∧ b'.Sound ∧ b'.limit = b.limit ∧ b'.used + v.charged = b.used + v'.charged := by
  have hpeak := hb.used_le
  have hlimit := hb.peak_le
  have hpassed : ∀ used ≤ b.used + capacity * v.size, b.used + capacity * v.size ≤ b.limit →
      (b.passed (capacity * v.size) used).Sound :=
    fun used hused hfits => ⟨hused.trans (le_max_right ..), max_le hlimit hfits, hb.limit_le⟩
  cases h with
  | ok hlt hfits =>
    refine ⟨⟨hv.size_pos, rfl, hv.length_le.trans (Nat.le_of_lt hlt)⟩,
      hpassed _ (Nat.sub_le ..) hfits, rfl, ?_⟩
    exact Nat.sub_add_cancel (Nat.le_add_right_of_le hcharged)
  | alloc hfits => exact ⟨hv, hpassed _ (Nat.le_add_right ..) hfits, rfl, rfl⟩
  | budget hover => exact ⟨hv, hb, rfl, rfl⟩
  | invariant hfits =>
    have hused := hpassed (b.used - v.charged) (by omega) hfits
    refine ⟨⟨hv.size_pos, (Nat.zero_mul _).symm, Nat.le_refl 0⟩,
      ⟨hused.used_le, hused.peak_le, hused.limit_le⟩, rfl, ?_⟩
    exact Nat.sub_add_cancel hcharged

/-- What a growth says about the budget it asked. -/
lemma Grown.answers (h : Grown v b capacity result v' b') :
    (result = .error .budget ↔ b.limit < b.used + capacity * v.size) ∧
      (result ≠ .error .budget → b'.peak = max b.peak (b.used + capacity * v.size)) ∧
      (result = .error .budget ∨ result = .error .alloc → v' = v ∧ b'.used = b.used) ∧
      (result = .error .invariant → v' = v.freed) := by
  cases h with
  | ok hlt hfits =>
    refine ⟨iff_of_false (by simp) (Nat.not_lt.2 hfits), fun _ => rfl, ?_, by simp⟩
    rintro (hr | hr) <;> cases hr
  | alloc hfits =>
    exact ⟨iff_of_false (by simp) (Nat.not_lt.2 hfits), fun _ => rfl, fun _ => ⟨rfl, rfl⟩, by simp⟩
  | budget hover =>
    exact ⟨iff_of_true rfl hover, fun hr => absurd rfl hr, fun _ => ⟨rfl, rfl⟩, by simp⟩
  | invariant hfits =>
    refine ⟨iff_of_false (by simp) (Nat.not_lt.2 hfits), fun _ => rfl, ?_, fun _ => rfl⟩
    rintro (hr | hr) <;> cases hr

/-! ## Operations that may grow -/

variable {f : List α → List α} {request : Option Nat}

lemma Provided.sound (h : Provided v b f request result v' b') (hv : v.Sound) (hb : b.Sound)
    (hcharged : v.charged ≤ b.used) (hroom : (f v.items).length ≤ request.getD v.capacity) :
    v'.Sound ∧ b'.Sound ∧ b'.limit = b.limit ∧ b'.used + v.charged = b.used + v'.charged := by
  cases h with
  | room => exact ⟨⟨hv.size_pos, hv.charged_eq, hroom⟩, hb, rfl, rfl⟩
  | grown h =>
    obtain ⟨hv', hb', hlimit, hused⟩ := h.sound hv hb hcharged
    cases h with
    | ok hlt hfits => exact ⟨⟨hv'.size_pos, hv'.charged_eq, hroom⟩, hb', hlimit, hused⟩
  | refused h => exact h.sound hv hb hcharged

/-- Growing first, then the change. -/
lemma growTo_provided (hv : v.Sound) (hb : b.Sound) (hcharged : v.charged ≤ b.used)
    (hlt : v.capacity < capacity) (r : Reservation) (f : List α → List α) :
    ∃ result v' b', (v.growTo capacity r b).map (BVec.within f) = some (result, v', b') ∧
      Provided v b f (some capacity) result v' b' := by
  obtain ⟨result, v', b', heq, hgrown⟩ := growTo_spec hv hb hcharged hlt r
  rw [heq, Option.map_some]
  cases result with
  | ok u => exact ⟨_, _, _, rfl, .grown hgrown⟩
  | error e => exact ⟨_, _, _, rfl, .refused hgrown⟩

/-- The capacity a push asks for. -/
def BVec.pushRequest (v : BVec α) : Option Nat :=
  if v.items.length = v.capacity then some (pushed v.size v.capacity) else none

/-- The capacity a resize asks for. -/
def BVec.resizeRequest (v : BVec α) (len : Nat) : Option Nat :=
  if v.capacity < len then some len else none

lemma push_provided (hv : v.Sound) (hb : b.Sound) (hcharged : v.charged ≤ b.used) (value : α)
    (r : Reservation) :
    ∃ result v' b', v.push value r b = some (result, v', b') ∧
      Provided v b (· ++ [value]) v.pushRequest result v' b' ∧
      (v.items ++ [value]).length ≤ v.pushRequest.getD v.capacity := by
  have hlength := hv.length_le
  have hpushed : v.capacity < pushed v.size v.capacity := by
    unfold pushed
    omega
  unfold BVec.push BVec.pushRequest
  rw [List.length_append, List.length_singleton]
  by_cases hfull : v.items.length = v.capacity
  · rw [if_pos hfull, if_pos hfull, amortized_eq]
    by_cases hmax : max (v.capacity * 2) (v.capacity + 1) ≤ usizeMax
    · rw [if_pos hmax]
      obtain ⟨result, v', b', heq, hprovided⟩ :=
        growTo_provided hv hb hcharged hpushed r (· ++ [value])
      exact ⟨result, v', b', heq, hprovided, by rw [Option.getD_some]; omega⟩
    · rw [if_neg hmax]
      refine ⟨_, _, _, rfl, .refused (.budget ?_), by rw [Option.getD_some]; omega⟩
      have hsize := Nat.le_mul_of_pos_right (pushed v.size v.capacity) hv.size_pos
      have hlimit := hb.limit_le
      have hmin : max (v.capacity * 2) (v.capacity + 1) ≤ pushed v.size v.capacity := by
        unfold pushed
        omega
      omega
  · rw [if_neg hfull, if_neg hfull]
    exact ⟨_, _, _, rfl, .room, by rw [Option.getD_none]; omega⟩

lemma resize_provided (hv : v.Sound) (hb : b.Sound) (hcharged : v.charged ≤ b.used) (len : Nat)
    (value : α) (r : Reservation) :
    ∃ result v' b', v.resize len value r b = some (result, v', b') ∧
      Provided v b (BVec.resized len value) (v.resizeRequest len) result v' b' ∧
      (BVec.resized len value v.items).length ≤ (v.resizeRequest len).getD v.capacity := by
  have hlength : (BVec.resized len value v.items).length = len := by
    unfold BVec.resized
    rw [List.length_append, List.length_take, List.length_replicate]
    omega
  unfold BVec.resize BVec.resizeRequest
  rw [hlength]
  by_cases hlt : v.capacity < len
  · rw [if_pos hlt, if_pos hlt]
    obtain ⟨result, v', b', heq, hprovided⟩ := growTo_provided hv hb hcharged hlt r _
    exact ⟨result, v', b', heq, hprovided, Nat.le_refl _⟩
  · rw [if_neg hlt, if_neg hlt]
    exact ⟨_, _, _, rfl, .room, Nat.le_of_not_lt hlt⟩

end Growth

/-! ## Every run -/

namespace Analysis

variable {α : Type}

/-- What the owners may rely on: the budget holds exactly their charges. -/
structure Inv (s : Analysis α) : Prop where
  budget : s.budget.Sound
  used_eq : s.budget.used = (s.owners.map Owner.charged).sum
  sound : ∀ v, .vec v ∈ s.owners → v.Sound

/-- The operations that a caller can ask for: its vector is alive, elements have a size and an
element that is written is there. -/
def Applies (s : Analysis α) : BufferEvent α → Prop
  | .new size | .withCapacity size _ _ => 0 < size
  | .push i _ _ | .resize i _ _ _ | .pop i | .intoParts i => ∃ v, s.vec i = some v
  | .write i j _ => ∃ v, s.vec i = some v ∧ j < v.items.length
  | .drop i => i < s.owners.length

/-- The bytes of the buffer an operation asks for. -/
def requested (s : Analysis α) : BufferEvent α → Option Nat
  | .withCapacity size capacity _ => if 0 < capacity then some (capacity * size) else none
  | .push i _ _ => (s.vec i).bind fun v => v.pushRequest.map (· * v.size)
  | .resize i len _ _ => (s.vec i).bind fun v => (v.resizeRequest len).map (· * v.size)
  | _ => none

/-- What an operation comes to. -/
structure Answered (s : Analysis α) (request : Option Nat) (s' : Analysis α)
    (result : Except Grow Unit) : Prop where
  /-- Without a request there is always room. -/
  granted : request = none → result = .ok () ∧ s'.budget.peak = s.budget.peak
  /-- The budget refuses what it cannot hold beside everything that is charged, and nothing else. -/
  exceeded : ∀ bytes, request = some bytes →
    (result = .error .budget ↔ s.budget.limit < s.budget.used + bytes)
  /-- The old buffer and the new one are charged together. -/
  peak : ∀ bytes, request = some bytes → result ≠ .error .budget →
    s'.budget.peak = max s.budget.peak (s.budget.used + bytes)
  /-- A refusal leaves every buffer and the charges as they were. -/
  refused : result = .error .budget ∨ result = .error .alloc →
    s'.owners = s.owners ∧ s'.budget.used = s.budget.used
  /-- A broken promise costs a vector its buffer, and no other vector anything. -/
  broken : result = .error .invariant → s'.owners = s.owners ∨
    ∃ i v, s.vec i = some v ∧ s'.owners = s.owners.set i (.vec v.freed)

lemma vec_eq_some {s : Analysis α} {i : Nat} {v : BVec α} :
    s.vec i = some v ↔ s.owners[i]? = some (.vec v) := by
  unfold vec
  split
  · rename_i v' h
    rw [h, Option.some.injEq, Option.some.injEq, Owner.vec.injEq]
  · rename_i h
    constructor
    · intro h'
      cases h'
    · intro h'
      exact absurd h' (h v)

lemma Inv.charged_le {s : Analysis α} {i : Nat} {owner : Owner α} (h : s.Inv)
    (ho : s.owners[i]? = some owner) : owner.charged ≤ s.budget.used := by
  rw [h.used_eq]
  exact List.le_sum_of_mem (List.mem_map_of_mem (List.mem_of_getElem? ho))

/-- What the budget holds for one owner and for all others. -/
lemma sum_charged {s : Analysis α} {i : Nat} {owner : Owner α} (ho : s.owners[i]? = some owner) :
    (s.owners.map Owner.charged).sum =
      owner.charged + ((s.owners.eraseIdx i).map Owner.charged).sum := by
  obtain ⟨hlt, rfl⟩ := List.getElem?_eq_some_iff.1 ho
  rw [← List.sum_cons, ← List.map_cons]
  exact ((List.getElem_cons_eraseIdx_perm hlt).symm.map _).sum_eq

/-- Another owner in the place of one, with the budget that goes with it. -/
lemma Inv.put {s : Analysis α} {i : Nat} {owner owner' : Owner α} {b' : Budget} (h : s.Inv)
    (ho : s.owners[i]? = some owner) (hb : b'.Sound)
    (hused : b'.used + owner.charged = s.budget.used + owner'.charged)
    (hsound : ∀ v, owner' = .vec v → v.Sound) : Inv ⟨b', s.owners.set i owner'⟩ := by
  obtain ⟨hlt, -⟩ := List.getElem?_eq_some_iff.1 ho
  refine ⟨hb, ?_, fun v hv => ?_⟩
  · have hall := sum_charged ho
    have hset := ((List.set_perm_cons_eraseIdx hlt owner').map Owner.charged).sum_eq
    rw [List.map_cons, List.sum_cons] at hset
    have := h.used_eq
    show b'.used = ((s.owners.set i owner').map Owner.charged).sum
    omega
  · rcases List.mem_or_eq_of_mem_set hv with hv | hv
    · exact h.sound v hv
    · exact hsound v hv.symm

/-- Other items in the same buffer. -/
lemma Inv.rewritten {s : Analysis α} {i : Nat} {v : BVec α} {items : List α} (h : s.Inv)
    (hv : s.vec i = some v) (hlength : items.length ≤ v.capacity) :
    Inv ⟨s.budget, s.owners.set i (.vec { v with items := items })⟩ := by
  have ho := vec_eq_some.1 hv
  have hsound := h.sound v (List.mem_of_getElem? ho)
  refine h.put ho h.budget rfl fun w hw => ?_
  obtain rfl := Owner.vec.inj hw
  exact ⟨hsound.size_pos, hsound.charged_eq, hlength⟩

/-- An owner less. -/
lemma Inv.erase {s : Analysis α} {i : Nat} {owner : Owner α} (h : s.Inv)
    (ho : s.owners[i]? = some owner) :
    ∃ b', s.budget.release owner.charged = some b' ∧ b'.used + owner.charged = s.budget.used ∧
      b'.peak = s.budget.peak ∧ b'.limit = s.budget.limit ∧ Inv ⟨b', s.owners.eraseIdx i⟩ := by
  have hle := h.charged_le ho
  refine ⟨_, if_pos hle, Nat.sub_add_cancel hle, rfl, rfl,
    ⟨(Nat.sub_le ..).trans h.budget.used_le, h.budget.peak_le, h.budget.limit_le⟩, ?_,
    fun v hv => h.sound v (List.mem_of_mem_eraseIdx hv)⟩
  have hall := sum_charged ho
  have := h.used_eq
  show s.budget.used - owner.charged = ((s.owners.eraseIdx i).map Owner.charged).sum
  omega

/-- A vector's operation that may grow. -/
lemma Inv.provided {s : Analysis α} {i : Nat} {v v' : BVec α} {b' : Budget}
    {f : List α → List α} {request : Option Nat} {result : Except Grow Unit} (h : s.Inv)
    (hv : s.vec i = some v) (hp : Provided v s.budget f request result v' b')
    (hroom : (f v.items).length ≤ request.getD v.capacity) :
    (s.put i (result, v', b')).1.Inv ∧ b'.limit = s.budget.limit ∧
      s.Answered (request.map (· * v.size)) (s.put i (result, v', b')).1 result := by
  have ho := vec_eq_some.1 hv
  obtain ⟨hv', hb', hlimit, hused⟩ :=
    hp.sound (h.sound v (List.mem_of_getElem? ho)) h.budget (h.charged_le ho) hroom
  refine ⟨h.put ho hb' hused fun w hw => ?_, hlimit, ?_⟩
  · obtain rfl := Owner.vec.inj hw
    exact hv'
  cases hp with
  | room =>
    refine ⟨fun _ => ⟨rfl, rfl⟩, fun _ hb => ?_, fun _ hb => ?_, ?_, by simp⟩
    · cases hb
    · cases hb
    · rintro (hr | hr) <;> cases hr
  | grown hgrown =>
    obtain ⟨hover, hpeak, -⟩ := hgrown.answers
    refine ⟨fun hb => ?_, fun _ hb => ?_, fun _ hb => ?_, ?_, by simp⟩
    · cases hb
    · rw [← Option.some.inj hb]
      exact hover
    · rw [← Option.some.inj hb]
      exact hpeak
    · rintro (hr | hr) <;> cases hr
  | refused hgrown =>
    obtain ⟨hover, hpeak, hrefused, hbroken⟩ := hgrown.answers
    refine ⟨fun hb => ?_, fun _ hb => ?_, fun _ hb => ?_, fun hr => ?_, fun hr => ?_⟩
    · cases hb
    · rw [← Option.some.inj hb]
      exact hover
    · rw [← Option.some.inj hb]
      exact hpeak
    · obtain ⟨rfl, hkept⟩ := hrefused hr
      obtain ⟨hlt, hget⟩ := List.getElem?_eq_some_iff.1 ho
      refine ⟨?_, hkept⟩
      show s.owners.set i (.vec v') = s.owners
      rw [← hget]
      exact List.set_getElem_self hlt
    · obtain rfl := hbroken hr
      exact .inr ⟨i, v, hv, rfl⟩

/-- What a new vector becomes. -/
lemma Inv.added {s : Analysis α} {v : BVec α} {b' : Budget} (h : s.Inv) (hb : b'.Sound)
    (hused : b'.used = s.budget.used + v.charged) (hv : v.Sound) :
    Inv ⟨b', s.owners ++ [.vec v]⟩ := by
  refine ⟨hb, ?_, fun w hw => ?_⟩
  · show b'.used = ((s.owners ++ [Owner.vec v]).map Owner.charged).sum
    rw [List.map_append, List.sum_append, ← h.used_eq, hused]
    simp [Owner.charged]
  · rcases List.mem_append.1 hw with hw | hw
    · exact h.sound w hw
    · obtain rfl := Owner.vec.inj (List.mem_singleton.1 hw)
      exact hv

/-- An operation without a request that succeeds. -/
lemma Answered.plain {s s' : Analysis α} (h : s'.budget.peak = s.budget.peak) :
    s.Answered none s' (.ok ()) := by
  refine ⟨fun _ => ⟨rfl, h⟩, fun _ hb => ?_, fun _ hb => ?_, ?_, by simp⟩
  · cases hb
  · cases hb
  · rintro (hr | hr) <;> cases hr

/-- A new vector of some capacity. -/
lemma withCapacity_answered {s : Analysis α} (h : s.Inv) {size capacity : Nat} (hsize : 0 < size)
    (hcapacity : 0 < capacity) (r : Reservation) :
    ∃ s' result, ((BVec.new size).growTo capacity r s.budget).bind s.add = some (s', result) ∧
      s'.Inv ∧ s'.budget.limit = s.budget.limit ∧ s.Answered (some (capacity * size)) s' result := by
  have hnew : (BVec.new size : BVec α).Sound := ⟨hsize, (Nat.zero_mul _).symm, Nat.le_refl 0⟩
  obtain ⟨result, v', b', heq, hgrown⟩ :=
    growTo_spec hnew h.budget (Nat.zero_le _) hcapacity r
  obtain ⟨hv', hb', hlimit, hused⟩ := hgrown.sound hnew h.budget (Nat.zero_le _)
  obtain ⟨hover, hpeak, hrefused, hbroken⟩ := hgrown.answers
  rw [heq, Option.bind_some]
  cases result with
  | ok u =>
    refine ⟨⟨b', s.owners ++ [.vec v']⟩, .ok (), rfl, h.added hb' hused hv', hlimit,
      fun hb => ?_, fun _ hb => ?_, fun _ hb => ?_, ?_, by simp⟩
    · cases hb
    · rw [← Option.some.inj hb]
      exact hover
    · rw [← Option.some.inj hb]
      exact hpeak
    · rintro (hr | hr) <;> cases hr
  | error e =>
    have hfree : v'.charged = 0 := by
      cases hgrown <;> rfl
    rw [hfree] at hused
    have hrelease : b'.release v'.charged = some b' := by
      rw [hfree]
      exact if_pos (Nat.zero_le _)
    refine ⟨⟨b', s.owners⟩, .error e, by rw [add, hrelease]; rfl,
      ⟨hb', hused.trans h.used_eq, h.sound⟩, hlimit,
      fun hb => ?_, fun _ hb => ?_, fun _ hb => ?_, fun hr => ⟨rfl, hused⟩, fun _ => .inl rfl⟩
    · cases hb
    · rw [← Option.some.inj hb]
      exact hover
    · rw [← Option.some.inj hb]
      exact hpeak

/-- Every operation that applies comes to something, and keeps the invariant. -/
lemma step_answered {s : Analysis α} (h : s.Inv) {e : BufferEvent α} (happlies : s.Applies e) :
    ∃ s' result, s.step e = some (s', result) ∧ s'.Inv ∧ s'.budget.limit = s.budget.limit ∧
      s.Answered (s.requested e) s' result := by
  cases e with
  | new size =>
    have hsize : size ≠ 0 := Nat.pos_iff_ne_zero.1 happlies
    refine ⟨_, _, if_neg hsize, h.added h.budget rfl ?_, rfl, .plain rfl⟩
    exact ⟨happlies, (Nat.zero_mul _).symm, Nat.le_refl 0⟩
  | withCapacity size capacity r =>
    have hsize : size ≠ 0 := Nat.pos_iff_ne_zero.1 happlies
    simp only [step, requested, if_neg hsize]
    by_cases hcapacity : 0 < capacity
    · rw [if_pos hcapacity, if_pos hcapacity]
      exact withCapacity_answered h happlies hcapacity r
    · rw [if_neg hcapacity, if_neg hcapacity]
      refine ⟨_, _, rfl, h.added h.budget rfl ?_, rfl, .plain rfl⟩
      exact ⟨happlies, (Nat.zero_mul _).symm, Nat.le_refl 0⟩
  | push i value r =>
    obtain ⟨v, hv⟩ := happlies
    have ho := vec_eq_some.1 hv
    obtain ⟨result, v', b', heq, hp, hroom⟩ := push_provided (h.sound v (List.mem_of_getElem? ho))
      h.budget (h.charged_le ho) value r
    obtain ⟨hinv, hlimit, hanswered⟩ := h.provided hv hp hroom
    simp only [step, requested, hv, Option.bind_some, heq, Option.map_some]
    exact ⟨_, _, rfl, hinv, hlimit, hanswered⟩
  | resize i len value r =>
    obtain ⟨v, hv⟩ := happlies
    have ho := vec_eq_some.1 hv
    obtain ⟨result, v', b', heq, hp, hroom⟩ := resize_provided (h.sound v (List.mem_of_getElem? ho))
      h.budget (h.charged_le ho) len value r
    obtain ⟨hinv, hlimit, hanswered⟩ := h.provided hv hp hroom
    simp only [step, requested, hv, Option.bind_some, heq, Option.map_some]
    exact ⟨_, _, rfl, hinv, hlimit, hanswered⟩
  | pop i =>
    obtain ⟨v, hv⟩ := happlies
    have hsound := h.sound v (List.mem_of_getElem? (vec_eq_some.1 hv))
    have hlength : v.items.dropLast.length ≤ v.items.length := by
      rw [List.length_dropLast]
      exact Nat.sub_le ..
    have hinv := h.rewritten hv (hlength.trans hsound.length_le)
    exact ⟨_, _, by rw [step, hv]; rfl, hinv, rfl, .plain rfl⟩
  | write i j value =>
    obtain ⟨v, hv, hj⟩ := happlies
    have hsound := h.sound v (List.mem_of_getElem? (vec_eq_some.1 hv))
    have hinv := h.rewritten hv ((List.length_set (a := value) (i := j)).trans_le hsound.length_le)
    exact ⟨_, _, by rw [step, hv, Option.bind_some, if_pos hj]; rfl, hinv, rfl, .plain rfl⟩
  | intoParts i =>
    obtain ⟨v, hv⟩ := happlies
    have hinv : Inv ⟨s.budget, s.owners.set i (.held v.charged)⟩ :=
      h.put (vec_eq_some.1 hv) h.budget rfl fun w hw => by cases hw
    have hrelease : s.budget.release v.freed.charged = some s.budget := if_pos (Nat.zero_le _)
    exact ⟨_, _, by rw [step, hv, Option.bind_some, hrelease]; rfl, hinv, rfl, .plain rfl⟩
  | drop i =>
    have ho := List.getElem?_eq_getElem happlies
    obtain ⟨b', hrelease, -, hpeak, hlimit, hinv⟩ := h.erase ho
    exact ⟨_, _, by rw [step, ho, Option.bind_some, hrelease]; rfl, hinv, hlimit, .plain hpeak⟩

/-- What has a result applies. -/
lemma applies_of_step {s s' : Analysis α} {e : BufferEvent α} {result : Except Grow Unit}
    (h : s.step e = some (s', result)) : s.Applies e := by
  cases e with
  | new size =>
    by_contra hsize
    rw [step, if_pos (Nat.eq_zero_of_not_pos hsize)] at h
    cases h
  | withCapacity size capacity r =>
    by_contra hsize
    rw [step, if_pos (Nat.eq_zero_of_not_pos hsize)] at h
    cases h
  | push i value r | resize i len value r | intoParts i =>
    obtain ⟨v, hv, -⟩ := Option.bind_eq_some_iff.1 h
    exact ⟨v, hv⟩
  | pop i =>
    obtain ⟨v, hv, -⟩ := Option.map_eq_some_iff.1 h
    exact ⟨v, hv⟩
  | write i j value =>
    obtain ⟨v, hv, h⟩ := Option.bind_eq_some_iff.1 h
    split_ifs at h with hj
    exact ⟨v, hv, hj⟩
  | drop i =>
    obtain ⟨owner, ho, -⟩ := Option.bind_eq_some_iff.1 h
    exact (List.getElem?_eq_some_iff.1 ho).1

lemma reachable_inv {s : Analysis α} {limit : Nat} (hlimit : limit ≤ usizeMax)
    (h : (buffers α limit).Reachable s) : s.Inv ∧ s.budget.limit = limit := by
  refine h.invariant (P := fun s => s.Inv ∧ s.budget.limit = limit) (fun s hs => ?_)
    fun s e s' result hs hstep => ?_
  · obtain rfl := hs
    exact ⟨⟨⟨Nat.le_refl 0, Nat.zero_le _, hlimit⟩, rfl, fun v hv => absurd hv List.not_mem_nil⟩, rfl⟩
  · obtain ⟨s'', result', hstep', hinv, hsame, -⟩ := step_answered hs.1 (applies_of_step hstep)
    obtain ⟨rfl, rfl⟩ := Prod.mk.inj (Option.some.inj (hstep.symm.trans hstep'))
    exact ⟨hinv, hsame.trans hs.2⟩

end Analysis

/-- **Analysis budget**: after any operations on any number of buffers the budget holds exactly the
charges of those that are alive, each of which is its capacity in bytes, and neither it nor its peak
passes the limit; every operation comes to something, and is refused or granted as `Answered`
says. -/
theorem buffers_accounted (α : Type) (limit : Nat) (hlimit : limit ≤ usizeMax) (s : Analysis α)
    (h : (buffers α limit).Reachable s) :
    s.budget.used = (s.owners.map Owner.charged).sum ∧ s.budget.used ≤ s.budget.peak ∧
      s.budget.peak ≤ limit ∧
      (∀ v, .vec v ∈ s.owners → v.charged = v.capacity * v.size ∧ v.items.length ≤ v.capacity) ∧
      ∀ e, s.Applies e → ∃ s' result, s.step e = some (s', result) ∧
        s.Answered (s.requested e) s' result := by
  obtain ⟨hinv, hsame⟩ := Analysis.reachable_inv hlimit h
  refine ⟨hinv.used_eq, hinv.budget.used_le, hsame ▸ hinv.budget.peak_le, fun v hv => ?_,
    fun e happlies => ?_⟩
  · have hsound := hinv.sound v hv
    exact ⟨hsound.charged_eq, hsound.length_le⟩
  · obtain ⟨s', result, hstep, -, -, hanswered⟩ := Analysis.step_answered hinv happlies
    exact ⟨s', result, hstep, hanswered⟩

/-- One vector of four words under a limit of 64 bytes. -/
def fourWords : Analysis Nat := ⟨⟨64, 32, 32, 0⟩, [.vec ⟨8, [7, 7, 7, 7], 4, 32⟩]⟩

/-- Its next growth would need 96 bytes and is refused. -/
theorem buffers_accounted_four :
    fourWords.budget.used = (fourWords.owners.map Owner.charged).sum ∧
      fourWords.budget.used ≤ fourWords.budget.peak ∧ fourWords.budget.peak ≤ 64 ∧
      (∀ v, .vec v ∈ fourWords.owners →
        v.charged = v.capacity * v.size ∧ v.items.length ≤ v.capacity) ∧
      ∀ e, fourWords.Applies e → ∃ s' result, fourWords.step e = some (s', result) ∧
        fourWords.Answered (fourWords.requested e) s' result :=
  buffers_accounted Nat 64 (by decide) fourWords
    ((Machine.Reachable.of_start rfl).run (.cons rfl (.cons rfl (.nil _)) :
      (buffers Nat 64).Run ⟨.new 64, []⟩
        [(.new 8, .ok ()), (.resize 0 4 7 (.granted 4), .ok ())] fourWords))

end Region

end Rnx
