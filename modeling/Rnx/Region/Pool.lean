import Mathlib.Algebra.BigOperators.Group.List.Basic
import Rnx.Lib.Transition
import Rnx.Store.Value

/-!
# The process-wide pool of mappings

`Pool` of `region/budget.rs`: two independent atomic counters, the mappings reserved and the bytes
they hold.  A reservation raises the first, then the second, and takes the first back when the
second refuses; a dropped token lowers both.  Each of these is a compare-exchange loop, so another
thread can step between any two of its accesses.

The machine below interleaves the atomic accesses of any number of threads.  Each thread carries,
beside its program point, the net effect its operation has had on the two counters so far.
-/

namespace Rnx

namespace Region.Pool

/-! ## The compare-exchange loops -/

/-- Where a loop stands: about to load, or about to exchange the value it has. -/
inductive Loop
  | load
  | exchange (current : Nat)
deriving DecidableEq, Repr

/-- One atomic access of `add_within`: the counter after it, and the loop or its answer.  An
exchange marked `weak` fails spuriously. -/
def addWithin (n max : Nat) (weak : Bool) (atomic : Nat) : Loop → Nat × (Loop ⊕ Bool)
  | .load => (atomic, .inl (.exchange atomic))
  | .exchange current =>
      match (checkedAdd current n).filter (· ≤ max) with
      | none => (atomic, .inr false)
      | some next =>
          if atomic = current ∧ weak = false then (next, .inr true)
          else (atomic, .inl (.exchange atomic))

/-- One atomic access of `sub`: the counter after it, and the loop unless it is done. -/
def sub (n : Nat) (weak : Bool) (atomic : Nat) : Loop → Nat × Option Loop
  | .load => (atomic, some (.exchange atomic))
  | .exchange current =>
      if atomic = current ∧ weak = false then (current - n, none)
      else (atomic, some (.exchange atomic))

/-! ## Threads -/

/-- What the last operation of a thread came to. -/
inductive Outcome
  | granted (bytes : Nat)
  | refused
  | dropped (bytes : Nat)
deriving DecidableEq, Repr

/-- The program points of `Pool::reserve` and `Token::drop`. -/
inductive Phase
  | idle (last : Option Outcome)
  | addCount (bytes : Nat) (loop : Loop)
  | addBytes (bytes : Nat) (loop : Loop)
  | undoCount (loop : Loop)
  | subBytes (bytes : Nat) (loop : Loop)
  | subCount (bytes : Nat) (loop : Loop)
deriving DecidableEq, Repr

/-- The atomics. -/
structure Counters where
  count : Nat
  bytes : Nat
deriving DecidableEq, Repr

/-- A thread: its program point, and the net effect of its operation on the counters. -/
structure Thread where
  phase : Phase
  count : Int
  bytes : Int
deriving DecidableEq, Repr

/-- The bounds every reservation is made with. -/
structure Bounds where
  maxCount : Nat
  maxBytes : Nat

/-- The counters after one atomic access, and the program point that follows. -/
def advance (b : Bounds) (weak : Bool) (c : Counters) : Phase → Counters × Phase
  | .idle last => (c, .idle last)
  | .addCount bytes loop =>
      match addWithin 1 b.maxCount weak c.count loop with
      | (n, .inl loop) => ({ c with count := n }, .addCount bytes loop)
      | (n, .inr true) => ({ c with count := n }, .addBytes bytes .load)
      | (n, .inr false) => ({ c with count := n }, .idle (some .refused))
  | .addBytes bytes loop =>
      match addWithin bytes b.maxBytes weak c.bytes loop with
      | (n, .inl loop) => ({ c with bytes := n }, .addBytes bytes loop)
      | (n, .inr true) => ({ c with bytes := n }, .idle (some (.granted bytes)))
      | (n, .inr false) => ({ c with bytes := n }, .undoCount .load)
  | .undoCount loop =>
      match sub 1 weak c.count loop with
      | (n, some loop) => ({ c with count := n }, .undoCount loop)
      | (n, none) => ({ c with count := n }, .idle (some .refused))
  | .subBytes bytes loop =>
      match sub bytes weak c.bytes loop with
      | (n, some loop) => ({ c with bytes := n }, .subBytes bytes loop)
      | (n, none) => ({ c with bytes := n }, .subCount bytes .load)
  | .subCount bytes loop =>
      match sub 1 weak c.count loop with
      | (n, some loop) => ({ c with count := n }, .subCount bytes loop)
      | (n, none) => ({ c with count := n }, .idle (some (.dropped bytes)))

/-! ## The machine -/

/-- The counters, the live tokens by their bytes, and the threads. -/
structure System where
  counters : Counters
  tokens : List Nat
  threads : List Thread
deriving DecidableEq, Repr

/-- What a thread does next: call `reserve`, drop a token, or take one atomic access. -/
inductive Action
  | reserve (bytes : Nat)
  | drop (bytes : Nat)
  | access (weak : Bool)
deriving DecidableEq, Repr

def Phase.isIdle : Phase → Bool
  | .idle _ => true
  | _ => false

/-- The tokens once a thread has got to `phase`: a granted reservation returns one. -/
def Phase.returned : Phase → List Nat → List Nat
  | .idle (some (.granted bytes)), tokens => bytes :: tokens
  | _, tokens => tokens

/-- A thread after it went from `c` to `c'` and to `phase`. -/
def Thread.moved (t : Thread) (c c' : Counters) (phase : Phase) : Thread :=
  ⟨phase, t.count + (c'.count - c.count), t.bytes + (c'.bytes - c.bytes)⟩

/-- One action of thread `i`. -/
def next (b : Bounds) (s : System) (event : Nat × Action) : Option (System × Unit) := do
  let t ← s.threads[event.1]?
  match event.2 with
  | .reserve bytes =>
      if t.phase.isIdle = true then
        some ({ s with threads := s.threads.set event.1 ⟨.addCount bytes .load, 0, 0⟩ }, ())
      else none
  | .drop bytes =>
      if t.phase.isIdle = true ∧ bytes ∈ s.tokens then
        some ({ s with
          tokens := s.tokens.erase bytes
          threads := s.threads.set event.1 ⟨.subBytes bytes .load, 0, 0⟩ }, ())
      else none
  | .access weak =>
      if t.phase.isIdle = true then none
      else
        let a := advance b weak s.counters t.phase
        some ({ s with
          counters := a.1
          tokens := a.2.returned s.tokens
          threads := s.threads.set event.1 (t.moved s.counters a.1 a.2) }, ())

/-- A pool without reservations and any number of threads. -/
def machine (b : Bounds) : Machine System (Nat × Action) Unit where
  start s := s.counters = ⟨0, 0⟩ ∧ s.tokens = [] ∧ ∀ t ∈ s.threads, t = ⟨.idle none, 0, 0⟩
  next := next b

/-! ## What a thread holds -/

/-- The share of the first counter a thread stands for. -/
def Phase.heldCount : Phase → Nat
  | .addBytes _ _ | .undoCount _ | .subBytes _ _ | .subCount _ _ => 1
  | _ => 0

/-- The share of the second counter a thread stands for. -/
def Phase.heldBytes : Phase → Nat
  | .subBytes bytes _ => bytes
  | _ => 0

/-- The subtraction a thread is about to make: from what value, and how much. -/
def Phase.subtraction : Phase → Option (Nat × Nat)
  | .undoCount (.exchange current) | .subCount _ (.exchange current) => some (current, 1)
  | .subBytes bytes (.exchange current) => some (current, bytes)
  | _ => none

/-- The net effect an operation has had when it is at `phase`. -/
def Phase.effect : Phase → Int × Int
  | .addBytes _ _ | .undoCount _ => (1, 0)
  | .idle (some (.granted bytes)) => (1, bytes)
  | .subCount bytes _ => (0, -bytes)
  | .idle (some (.dropped bytes)) => (-1, -bytes)
  | _ => (0, 0)

/-- What is known of one thread: it subtracts no more than was there, and its operation has had
the effect its program point says. -/
structure Thread.Ok (t : Thread) : Prop where
  enough : ∀ p ∈ t.phase.subtraction, p.2 ≤ p.1
  effect : (t.count, t.bytes) = t.phase.effect

/-- The counters are the live tokens and the shares of the operations in flight. -/
structure Inv (b : Bounds) (s : System) : Prop where
  count : s.counters.count = s.tokens.length + (s.threads.map (·.phase.heldCount)).sum
  bytes : s.counters.bytes = s.tokens.sum + (s.threads.map (·.phase.heldBytes)).sum
  count_le : s.counters.count ≤ b.maxCount
  bytes_le : s.counters.bytes ≤ b.maxBytes
  threads : ∀ t ∈ s.threads, t.Ok

variable {b : Bounds} {s t : System} {c c' : Counters} {p p' : Phase} {weak : Bool} {tokens : List Nat}

/-! ## One access -/

/-- An access of `add_within` loads, refuses, or adds within the bound. -/
lemma addWithin_cases (n max : Nat) (weak : Bool) (atomic : Nat) (loop : Loop) :
    addWithin n max weak atomic loop = (atomic, .inl (.exchange atomic)) ∨
      addWithin n max weak atomic loop = (atomic, .inr false) ∨
      (addWithin n max weak atomic loop = (atomic + n, .inr true) ∧ atomic + n ≤ max) := by
  cases loop with
  | load => exact .inl rfl
  | exchange current =>
      unfold addWithin
      cases hsum : (checkedAdd current n).filter (· ≤ max) with
      | none =>
          simp only [hsum]
          exact .inr (.inl trivial)
      | some next =>
          obtain ⟨hadd, hle⟩ := Option.filter_eq_some_iff.1 hsum
          have hnext : next = current + n := checkedAdd_eq_some hadd
          by_cases hread : atomic = current ∧ weak = false
          · simp only [hsum, if_pos hread]
            rw [hread.1, hnext]
            exact .inr (.inr ⟨rfl, hnext ▸ of_decide_eq_true hle⟩)
          · simp only [hsum, if_neg hread]
            exact .inl trivial

/-- An access of `sub` loads, or subtracts what the value it holds allows. -/
lemma sub_cases {n : Nat} (weak : Bool) (atomic : Nat) {loop : Loop}
    (enough : ∀ current, loop = .exchange current → n ≤ current) :
    sub n weak atomic loop = (atomic, some (.exchange atomic)) ∨
      (sub n weak atomic loop = (atomic - n, none) ∧ n ≤ atomic) := by
  cases loop with
  | load => exact .inl rfl
  | exchange current =>
      unfold sub
      by_cases hread : atomic = current ∧ weak = false
      · simp only [if_pos hread]
        rw [← hread.1]
        exact .inr ⟨rfl, hread.1 ▸ enough current rfl⟩
      · simp only [if_neg hread]
        exact .inl trivial

/-- What one access does: shares and tokens move with the counters, the bounds stay, and the
effect grows by what the counters moved. -/
structure Advanced (b : Bounds) (c : Counters) (p : Phase) (c' : Counters) (p' : Phase) : Prop where
  count : ∀ tokens : List Nat, c'.count + p.heldCount + tokens.length =
    c.count + p'.heldCount + (p'.returned tokens).length
  bytes : ∀ tokens : List Nat, c'.bytes + p.heldBytes + tokens.sum =
    c.bytes + p'.heldBytes + (p'.returned tokens).sum
  count_le : c.count ≤ b.maxCount → c'.count ≤ b.maxCount
  bytes_le : c.bytes ≤ b.maxBytes → c'.bytes ≤ b.maxBytes
  enough : ∀ q ∈ p'.subtraction, q.2 ≤ q.1
  effect : p'.effect = (p.effect.1 + (c'.count - c.count), p.effect.2 + (c'.bytes - c.bytes))

/-- An access that moves no counter keeps shares, tokens and effect. -/
lemma Advanced.still (hcount : p'.heldCount = p.heldCount) (hbytes : p'.heldBytes = p.heldBytes)
    (hreturned : ∀ tokens, p'.returned tokens = tokens) (heffect : p'.effect = p.effect)
    (enough : ∀ q ∈ p'.subtraction, q.2 ≤ q.1) : Advanced b c p c p' where
  count tokens := by rw [hcount, hreturned]
  bytes tokens := by rw [hbytes, hreturned]
  count_le := id
  bytes_le := id
  enough := enough
  effect := by rw [heffect, Int.sub_self, Int.sub_self, Int.add_zero, Int.add_zero]

lemma advance_spec (hp : p.isIdle = false) (hcount : p.heldCount ≤ c.count)
    (hbytes : p.heldBytes ≤ c.bytes) (henough : ∀ q ∈ p.subtraction, q.2 ≤ q.1) :
    Advanced b c p (advance b weak c p).1 (advance b weak c p).2 := by
  have hnone : ∀ q ∈ (none : Option (Nat × Nat)), q.2 ≤ q.1 := fun _ h => nomatch h
  have hsome : ∀ {current n : Nat}, n ≤ current → ∀ q ∈ some (current, n), q.2 ≤ q.1 := by
    rintro current n hle _ ⟨⟩
    exact hle
  cases p with
  | idle last => cases hp
  | addCount bytes loop =>
      rcases addWithin_cases 1 b.maxCount weak c.count loop with h | h | ⟨h, hle⟩ <;>
        simp only [advance, h]
      · exact .still rfl rfl (fun _ => rfl) rfl hnone
      · exact .still rfl rfl (fun _ => rfl) rfl hnone
      · refine ⟨fun tokens => ?_, fun _ => rfl, fun _ => hle, id, hnone, Prod.ext ?_ ?_⟩ <;>
          dsimp only [Phase.heldCount, Phase.returned, Phase.effect] <;> omega
  | addBytes bytes loop =>
      rcases addWithin_cases bytes b.maxBytes weak c.bytes loop with h | h | ⟨h, hle⟩ <;>
        simp only [advance, h]
      · exact .still rfl rfl (fun _ => rfl) rfl hnone
      · exact .still rfl rfl (fun _ => rfl) rfl hnone
      · refine ⟨fun tokens => ?_, fun tokens => ?_, id, fun _ => hle, hnone, Prod.ext ?_ ?_⟩ <;>
          dsimp only [Phase.heldCount, Phase.heldBytes, Phase.returned, Phase.effect,
            List.length_cons] <;>
          try rw [List.sum_cons]
        all_goals omega
  | undoCount loop =>
      have hle : ∀ current, loop = .exchange current → 1 ≤ current := by
        rintro current rfl
        exact henough (current, 1) rfl
      rcases sub_cases weak c.count hle with h | ⟨h, hone⟩ <;>
        simp only [advance, h]
      · exact .still rfl rfl (fun _ => rfl) rfl (hsome hcount)
      · refine ⟨fun tokens => ?_, fun _ => rfl, fun h => ?_, id, hnone, Prod.ext ?_ ?_⟩ <;>
          dsimp only [Phase.heldCount, Phase.returned, Phase.effect] <;> omega
  | subBytes bytes loop =>
      have hle : ∀ current, loop = .exchange current → bytes ≤ current := by
        rintro current rfl
        exact henough (current, bytes) rfl
      rcases sub_cases weak c.bytes hle with h | ⟨h, hone⟩ <;>
        simp only [advance, h]
      · exact .still rfl rfl (fun _ => rfl) rfl (hsome hbytes)
      · refine ⟨fun _ => rfl, fun tokens => ?_, id, fun h => ?_, hnone, Prod.ext ?_ ?_⟩ <;>
          dsimp only [Phase.heldBytes, Phase.returned, Phase.effect] <;> omega
  | subCount bytes loop =>
      have hle : ∀ current, loop = .exchange current → 1 ≤ current := by
        rintro current rfl
        exact henough (current, 1) rfl
      rcases sub_cases weak c.count hle with h | ⟨h, hone⟩ <;>
        simp only [advance, h]
      · exact .still rfl rfl (fun _ => rfl) rfl (hsome hcount)
      · refine ⟨fun tokens => ?_, fun _ => rfl, fun h => ?_, id, hnone, Prod.ext ?_ ?_⟩ <;>
          dsimp only [Phase.heldCount, Phase.returned, Phase.effect] <;> omega

/-! ## The invariant -/

variable {i : Nat} {event : Nat × Action} {x y : Thread}

/-- A sum over the threads after one of them changed. -/
lemma sum_map_set {threads : List Thread} (f : Thread → Nat) (hx : threads[i]? = some x) :
    ((threads.set i y).map f).sum + f x = (threads.map f).sum + f y := by
  induction threads generalizing i with
  | nil => simp at hx
  | cons z rest ih =>
      cases i with
      | zero =>
          obtain rfl : z = x := by simpa using hx
          simp only [List.set_cons_zero, List.map_cons, List.sum_cons]
          omega
      | succ i =>
          have := ih (by simpa using hx)
          simp only [List.set_cons_succ, List.map_cons, List.sum_cons]
          omega

lemma le_sum_map {threads : List Thread} (f : Thread → Nat) (hx : threads[i]? = some x) :
    f x ≤ (threads.map f).sum :=
  List.le_sum_of_mem (List.mem_map_of_mem (List.mem_of_getElem? hx))

lemma start_inv (hs : (machine b).start s) : Inv b s := by
  obtain ⟨hc, ht, hidle⟩ := hs
  have hphase : ∀ x ∈ s.threads, x.phase = .idle none := fun x hx => by rw [hidle x hx]
  have hzero : ∀ f : Phase → Nat, f (.idle none) = 0 → (s.threads.map (f ·.phase)).sum = 0 := by
    intro f hf
    apply List.sum_eq_zero
    intro n hn
    obtain ⟨x, hx, rfl⟩ := List.mem_map.1 hn
    rw [hphase x hx, hf]
  refine ⟨?_, ?_, ?_, ?_, ?_⟩
  · rw [hc, ht, hzero _ rfl]
    rfl
  · rw [hc, ht, hzero _ rfl]
    rfl
  · rw [hc]
    exact Nat.zero_le _
  · rw [hc]
    exact Nat.zero_le _
  · intro x hx
    rw [hidle x hx]
    exact ⟨fun q hq => (Option.not_mem_none _ hq).elim, rfl⟩

lemma isIdle_iff : p.isIdle = true ↔ ∃ last, p = .idle last := by
  cases p <;> simp [Phase.isIdle]

/-- A thread that begins an operation has had no effect yet. -/
lemma ok_begin {phase : Phase} (hsub : phase.subtraction = none) (heff : phase.effect = (0, 0)) :
    Thread.Ok ⟨phase, 0, 0⟩ :=
  ⟨fun q hq => by simp [hsub] at hq, heff.symm⟩

lemma threads_set (h : ∀ x ∈ s.threads, x.Ok) (hy : y.Ok) :
    ∀ x ∈ s.threads.set i y, x.Ok := by
  intro x hx
  obtain hx | rfl := List.mem_or_eq_of_mem_set hx
  · exact h x hx
  · exact hy

/-- Every action keeps the invariant. -/
lemma step_inv (hi : Inv b s) (hstep : next b s event = some (t, ())) : Inv b t := by
  obtain ⟨i, action⟩ := event
  obtain ⟨x, hx, hrest⟩ := Option.bind_eq_some_iff.1 hstep
  simp only at hx hrest
  have hcount := fun y => sum_map_set (y := y) (·.phase.heldCount) hx
  have hbytes := fun y => sum_map_set (y := y) (·.phase.heldBytes) hx
  have hok := hi.threads x (List.mem_of_getElem? hx)
  have hc := hi.count
  have hb := hi.bytes
  cases action with
  | reserve bytes =>
      simp only at hrest
      split_ifs at hrest with hidle
      simp only [Option.some.injEq, Prod.mk.injEq, and_true] at hrest
      subst hrest
      obtain ⟨last, hlast⟩ := isIdle_iff.1 hidle
      have h1 := hcount ⟨.addCount bytes .load, 0, 0⟩
      have h2 := hbytes ⟨.addCount bytes .load, 0, 0⟩
      rw [hlast] at h1 h2
      refine ⟨hc.trans ?_, hb.trans ?_, hi.count_le, hi.bytes_le,
        threads_set hi.threads (ok_begin rfl rfl)⟩
      · exact congrArg _ h1.symm
      · exact congrArg _ h2.symm
  | drop bytes =>
      simp only at hrest
      split_ifs at hrest with hidle
      simp only [Option.some.injEq, Prod.mk.injEq, and_true] at hrest
      subst hrest
      obtain ⟨last, hlast⟩ := isIdle_iff.1 hidle.1
      have h1 := hcount ⟨.subBytes bytes .load, 0, 0⟩
      have h2 := hbytes ⟨.subBytes bytes .load, 0, 0⟩
      rw [hlast] at h1 h2
      have hlen := List.length_erase_of_mem hidle.2
      have hpos := List.length_pos_of_mem hidle.2
      have hsum := List.sum_erase hidle.2
      refine ⟨?_, ?_, hi.count_le, hi.bytes_le, threads_set hi.threads (ok_begin rfl rfl)⟩
      · change _ + 0 = _ + 1 at h1
        simp only
        omega
      · change _ + 0 = _ + bytes at h2
        simp only
        omega
  | access weak =>
      simp only at hrest
      split_ifs at hrest with hidle
      generalize ha : advance b weak s.counters x.phase = a at hrest
      simp only [Option.some.injEq, Prod.mk.injEq, and_true] at hrest
      subst hrest
      have hshare := le_sum_map (·.phase.heldCount) hx
      have hlent := le_sum_map (·.phase.heldBytes) hx
      have hadv : Advanced b s.counters x.phase a.1 a.2 := by
        rw [← ha]
        exact advance_spec (by simpa using hidle) (by omega) (by omega) hok.enough
      have h1 := hcount (x.moved s.counters a.1 a.2)
      have h2 := hbytes (x.moved s.counters a.1 a.2)
      have h3 := hadv.count s.tokens
      have h4 := hadv.bytes s.tokens
      refine ⟨?_, ?_, hadv.count_le hi.count_le, hadv.bytes_le hi.bytes_le, ?_⟩
      · simp only [Thread.moved] at h1 ⊢
        omega
      · simp only [Thread.moved] at h2 ⊢
        omega
      · refine threads_set hi.threads ⟨hadv.enough, ?_⟩
        have heff := Prod.ext_iff.1 hok.effect
        rw [Thread.moved, hadv.effect, ← heff.1, ← heff.2]

/-! ## What the pool promises -/

/-- The accounts of the pool: the bounds hold, a refused reservation has had no effect, no
subtraction underflows, and between operations the counters are the live tokens. -/
structure Accounts (b : Bounds) (s : System) : Prop where
  count_le : s.tokens.length ≤ s.counters.count ∧ s.counters.count ≤ b.maxCount
  bytes_le : s.tokens.sum ≤ s.counters.bytes ∧ s.counters.bytes ≤ b.maxBytes
  refused : ∀ x ∈ s.threads, x.phase = .idle (some .refused) → x.count = 0 ∧ x.bytes = 0
  enough : ∀ x ∈ s.threads, ∀ q ∈ x.phase.subtraction, q.2 ≤ q.1
  settled : (∀ x ∈ s.threads, x.phase.isIdle = true) →
    s.counters = ⟨s.tokens.length, s.tokens.sum⟩
  dropped : s.tokens = [] → (∀ x ∈ s.threads, x.phase.isIdle = true) → s.counters = ⟨0, 0⟩

lemma Inv.settled (hi : Inv b s) (hidle : ∀ x ∈ s.threads, x.phase.isIdle = true) :
    s.counters = ⟨s.tokens.length, s.tokens.sum⟩ := by
  have hzero : ∀ f : Phase → Nat, (∀ last, f (.idle last) = 0) →
      (s.threads.map (f ·.phase)).sum = 0 := by
    intro f hf
    apply List.sum_eq_zero
    intro n hn
    obtain ⟨x, hx, rfl⟩ := List.mem_map.1 hn
    obtain ⟨last, hlast⟩ := isIdle_iff.1 (hidle x hx)
    rw [hlast, hf]
  have hc := hi.count
  have hb := hi.bytes
  rw [hzero _ fun _ => rfl, Nat.add_zero] at hc hb
  rw [← hc, ← hb]

/-- **The pool accounts for every reservation.**  However many threads there are and however their
accesses interleave. -/
theorem reserve_accounts (h : (machine b).Reachable s) : Accounts b s := by
  have hi : Inv b s := h.invariant (fun _ => start_inv) fun _ _ _ _ hi hstep => step_inv hi hstep
  have hc := hi.count
  have hb := hi.bytes
  constructor
  · exact ⟨by omega, hi.count_le⟩
  · exact ⟨by omega, hi.bytes_le⟩
  · intro x hx hphase
    have heff := Prod.ext_iff.1 (hi.threads x hx).effect
    rw [hphase] at heff
    exact heff
  · intro x hx
    exact (hi.threads x hx).enough
  · exact hi.settled
  · intro hnone hidle
    rw [hi.settled hidle, hnone]
    rfl

/-- Two threads that both ask for four bytes of four: the second raises the first counter, is
refused by the second one and takes it back. -/
def contended : System where
  counters := ⟨1, 4⟩
  tokens := [4]
  threads := [⟨.idle (some (.granted 4)), 1, 4⟩, ⟨.idle (some .refused), 0, 0⟩]

/-- The accesses that lead there. -/
def contend : List (Nat × Action) :=
  [(0, .reserve 4), (1, .reserve 4), (0, .access false), (1, .access false), (0, .access false),
    (1, .access false), (1, .access false), (0, .access false), (0, .access true),
    (0, .access false), (1, .access false), (1, .access false), (1, .access false),
    (1, .access false)]

/-- The accounts after a contended reservation. -/
theorem reserve_accounts_contended : Accounts ⟨2, 4⟩ contended :=
  have hstart : (machine ⟨2, 4⟩).start
      ⟨⟨0, 0⟩, [], [⟨.idle none, 0, 0⟩, ⟨.idle none, 0, 0⟩]⟩ := ⟨rfl, rfl, by simp⟩
  have hrun : (machine ⟨2, 4⟩).exec
      ⟨⟨0, 0⟩, [], [⟨.idle none, 0, 0⟩, ⟨.idle none, 0, 0⟩]⟩ contend = some contended := by decide
  reserve_accounts (.exec hstart hrun)

end Region.Pool

end Rnx
