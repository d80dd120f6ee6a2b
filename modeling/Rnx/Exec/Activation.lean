import Rnx.Code.Charge
import Rnx.Exec.Arithmetic
import Rnx.Lib.Transition

/-!
# Activations

One activation of a function under the dispatch loop of `execute.rs`: its pc and the slots of its
frame.  What the store, a callee or an intrinsic answers an instruction is not computed here but
given to the step as a reply, and every reply is allowed; the rest of an instruction is computed.  A
call is one step of its caller, whose other slots no callee can reach.  An instruction that fails
ends the invocation, and so do fuel and a cancellation, so a run is whatever came before.
-/

namespace Rnx

namespace Exec

/-! ## Casts -/

/-- The conversions between integers and `f64`. -/
structure CastOps where
  ofI64 : I64 → F64
  ofU64 : U64 → F64
  toI64 : F64 → I64
  toU64 : F64 → U64

/-- The error of a cast, with the type it found and whether the target is numeric. -/
structure CastError where
  kind : ErrorKind
  detail : Option (TypeName × Bool)
deriving DecidableEq

/-- `i64 as u64`. -/
def asU64 (a : I64) : U64 := ⟨a.toWord.toNat, a.toWord.isLt⟩

/-- `u64 as i64`. -/
def asI64 (a : U64) : I64 := .ofWord (BitVec.ofNat 64 a.val)

/-- `arithmetic::cast`. -/
def cast (C : CastOps) (value : Value) (target : Ty) : Except CastError Value :=
  match value, target with
  | .i64 a, .i64 => .ok (.i64 a)
  | .i64 a, .u64 => .ok (.u64 (asU64 a))
  | .i64 a, .f64 => .ok (.f64 (C.ofI64 a))
  | .u64 a, .i64 => .ok (.i64 (asI64 a))
  | .u64 a, .u64 => .ok (.u64 a)
  | .u64 a, .f64 => .ok (.f64 (C.ofU64 a))
  | .f64 a, .i64 => .ok (.i64 (C.toI64 a))
  | .f64 a, .u64 => .ok (.u64 (C.toU64 a))
  | .f64 a, .f64 => .ok (.f64 a)
  | value, target =>
      .error ⟨.invalidCast, (TypeName.primitive value).map fun found =>
        (found, target = .i64 || target = .u64 || target = .f64)⟩

/-- A cast to `i64` gives an `i64`. -/
lemma cast_i64 {C : CastOps} {value v : Value} (h : cast C value .i64 = .ok v) :
    ∃ n, v = .i64 n := by
  cases value with
  | i64 a => exact ⟨a, (Except.ok.inj h).symm⟩
  | u64 a => exact ⟨asI64 a, (Except.ok.inj h).symm⟩
  | f64 a => exact ⟨C.toI64 a, (Except.ok.inj h).symm⟩
  | unit | bool | char | ordering | heap | function | type => cases h

/-! ## Steps -/

/-- What an instruction is answered: a value, whether its operand has a type, or neither of them (an
iterator that has no more elements, an operation without a result). -/
inductive Reply
  | value (v : Value)
  | flag (b : Bool)
  | none
deriving DecidableEq

/-- What an instruction does to its activation. -/
inductive Effect
  | write (out : Nat) (v : Value)
  | goto (pc : Nat)
  | next
deriving DecidableEq

/-- The pc after an effect. -/
def Effect.target (pc : Nat) : Effect → Nat
  | .write _ _ => pc + 1
  | .goto q => q
  | .next => pc + 1

/-- Where an activation stands, and the slots of its frame. -/
structure Activation where
  pc : Nat
  slots : List Value
deriving DecidableEq

namespace Activation

/-- The frame of a call (`push_call`): the arguments, then units. -/
def enter (f : Function) (args : List Value) : Option Activation :=
  if args.length = f.parameters ∧ args.length ≤ f.slots then
    some ⟨0, args ++ List.replicate (f.slots - args.length) .unit⟩
  else none

variable (a : Activation)

/-- `get`: a slot of the frame. -/
def get (n : Nat) : Option Value := a.slots[n]?

/-- The answer to an instruction whose operands are read. -/
def ask (operands : List Nat) (reply : Reply) : Option Reply :=
  if ∀ n ∈ operands, n < a.slots.length then some reply else none

/-- The value the store or a callee hands back to an instruction. -/
def handed (operands : List Nat) (reply : Reply) : Option Value :=
  match a.ask operands reply with
  | some (.value v) => some v
  | _ => none

/-- The arm of `Op::Binary`, and of `Op::AssignBinary`: two integers are added or compared here, and
any other pair in the store. -/
def operated (op : Binary) (lhs rhs : Nat) (reply : Reply) : Option Value :=
  match a.get lhs, a.get rhs with
  | some x, some y =>
      match fastI64 op x y with
      | some result => result.toOption
      | none => a.handed [] reply
  | _, _ => none

/-- The arm of `Op::Is`. -/
def tested (value : Nat) (tag : Ty) (negate : Bool) (reply : Reply) : Option Value :=
  match a.get value, reply with
  | some (.function _ _), _ => some (.bool (decide (tag = .function) ^^ negate))
  | some (.type _), _ => some (.bool (false ^^ negate))
  | some _, .flag b => some (.bool (b ^^ negate))
  | _, _ => none

/-- The dispatch of `execute.rs`, an arm for each operation. -/
def effect (F : FloatOps) (C : CastOps) (reply : Reply) : Op → Option Effect
  | .template out _ _ => (a.handed [] reply).map (.write out)
  | .stringFrom out value => (a.handed [value] reply).map (.write out)
  | .panic _ => none
  | .print value => (a.ask [value] reply).map fun _ => .next
  | .variant out _ _ payload => (a.handed payload.toList reply).map (.write out)
  -- The other arm of `?` returns from the function.
  | .tryValue out value => (a.handed [value] reply).map (.write out)
  | .callValue out value _ _ => (a.handed [value] reply).map (.write out)
  | .range out start finish => (a.handed [start, finish] reply).map (.write out)
  | .iterStart out value => (a.handed [value] reply).map (.write out)
  | .iterNext out iterator done =>
      match a.ask [iterator] reply with
      | some (.value v) => some (.write out v)
      | some .none => some (.goto done)
      | _ => none
  | .string out _ => (a.handed [] reply).map (.write out)
  | .clone out value _ => (a.handed [value] reply).map (.write out)
  | .assignBinary out op lhs rhs => (a.operated op lhs rhs reply).map (.write out)
  | .literal out value => some (.write out value)
  | .copy out value => (a.get value).map (.write out)
  | .release value => some (.write value .unit)
  | .unary out op value =>
      ((a.get value).bind fun v => (arithmeticUnary F op v).toOption).map (.write out)
  | .binary out op lhs rhs => (a.operated op lhs rhs reply).map (.write out)
  | .cast out value tag => ((a.get value).bind fun v => (cast C v tag).toOption).map (.write out)
  | .is out value tag negate => (a.tested value tag negate reply).map (.write out)
  | .jump target => some (.goto target)
  | .branch condition yes no =>
      match a.get condition with
      | some (.bool b) => some (.goto (if b then yes else no))
      | _ => none
  | .call out _ _ _ => (a.handed [] reply).map (.write out)
  | .returnValue _ => none
  | .record out _ _ _ => (a.handed [] reply).map (.write out)
  | .field out value _ => (a.handed [value] reply).map (.write out)
  | .fieldGetMut out value _ => (a.handed [value] reply).map (.write out)
  | .fieldSetMut value _ new => (a.ask [value, new] reply).map fun _ => .next
  | .setField value _ new => (a.ask [value, new] reply).map fun _ => .next
  | .list out _ _ _ => (a.handed [] reply).map (.write out)
  | .tupleFieldGetMut out value index => (a.handed [value, index] reply).map (.write out)
  | .tupleFieldSetMut value index new => (a.ask [value, index, new] reply).map fun _ => .next
  | .tupleField out value index => (a.handed [value, index] reply).map (.write out)
  | .setTupleField value index new => (a.ask [value, index, new] reply).map fun _ => .next
  | .get out value index => (a.handed [value, index] reply).map (.write out)
  | .set value index new => (a.ask [value, index, new] reply).map fun _ => .next
  | .len out value => (a.handed [value] reply).map (.write out)
  | .push value new => (a.ask [value, new] reply).map fun _ => .next
  | .drop value => (a.ask [value] reply).map fun _ => .next

/-- The activation after an effect. -/
def apply : Effect → Option Activation
  | .write out v =>
      if out < a.slots.length then some ⟨a.pc + 1, a.slots.set out v⟩ else none
  | .goto pc => some { a with pc := pc }
  | .next => some { a with pc := a.pc + 1 }

/-- One instruction, fetched from the cache. -/
def step (F : FloatOps) (C : CastOps) (f : Function) (reply : Reply) : Option Activation :=
  f.cached[a.pc]?.bind fun i => (a.effect F C reply i.op).bind a.apply

end Activation

/-- The activations of a function.  A step yields the activation as the instruction found it. -/
def activations (F : FloatOps) (C : CastOps) (f : Function) :
    Machine Activation Reply Activation where
  start a := ∃ args, Activation.enter f args = some a
  next a reply := (a.step F C f reply).map fun b => (b, a)

namespace Activation

variable {F : FloatOps} {C : CastOps} {f : Function} {a b : Activation} {reply : Reply} {op : Op}

lemma next_eq_some {before : Activation}
    (h : (activations F C f).next a reply = some (b, before)) :
    before = a ∧ a.step F C f reply = some b := by
  obtain ⟨b', hstep, heq⟩ := Option.map_eq_some_iff.1 h
  obtain ⟨rfl, rfl⟩ := Prod.mk.inj heq
  exact ⟨rfl, hstep⟩

/-- A step of a cached function performs the decoded operation. -/
lemma step_operation (hf : f.prepareCache = .ok f) (h : a.step F C f reply = some b) :
    ∃ op effect, f.operation a.pc = .ok op ∧ a.effect F C reply op = some effect ∧
      a.apply effect = some b := by
  obtain ⟨i, hi, h⟩ := Option.bind_eq_some_iff.1 h
  obtain ⟨effect, heffect, happly⟩ := Option.bind_eq_some_iff.1 h
  obtain ⟨hlength, hat⟩ := Function.cached_of_prepareCache hf
  have hpc : a.pc < f.code.length := by
    rw [← hlength]
    exact (List.getElem?_eq_some_iff.1 hi).1
  obtain ⟨op, hop, hcached⟩ := hat a.pc f.code[a.pc] (List.getElem?_eq_getElem hpc)
  obtain rfl := Option.some.inj (hi.symm.trans hcached)
  refine ⟨op, effect, ?_, heffect, happly⟩
  exact Except.bind_eq_ok.2 ⟨f.code[a.pc], okOr_eq_ok.2 (List.getElem?_eq_getElem hpc), hop⟩

lemma apply_pc {effect : Effect} (h : a.apply effect = some b) : b.pc = effect.target a.pc := by
  cases effect with
  | write out v =>
    simp only [apply] at h
    split_ifs at h
    exact congrArg Activation.pc (Option.some.inj h).symm
  | goto pc => exact congrArg Activation.pc (Option.some.inj h).symm
  | next => exact congrArg Activation.pc (Option.some.inj h).symm

lemma target_write {o : Option Value} {out pc : Nat} {effect : Effect}
    (h : o.map (.write out) = some effect) : effect.target pc ∈ [pc + 1] := by
  obtain ⟨v, -, rfl⟩ := Option.map_eq_some_iff.1 h
  exact List.mem_singleton_self _

lemma target_next {o : Option Reply} {pc : Nat} {effect : Effect}
    (h : (o.map fun _ => Effect.next) = some effect) : effect.target pc ∈ [pc + 1] := by
  obtain ⟨reply, -, rfl⟩ := Option.map_eq_some_iff.1 h
  exact List.mem_singleton_self _

/-- The next pc is one of the targets of the operation. -/
lemma effect_targets {effect : Effect} (h : a.effect F C reply op = some effect) :
    effect.target a.pc ∈ op.targets a.pc := by
  cases op with
  | template | stringFrom | variant | tryValue | callValue | range | iterStart | string | clone
  | assignBinary | copy | unary | binary | cast | is | call | record | field | fieldGetMut | list
  | tupleFieldGetMut | tupleField | get | len => exact target_write h
  | print | fieldSetMut | setField | tupleFieldSetMut | setTupleField | set | push | drop =>
    exact target_next h
  | panic | returnValue => cases h
  | literal | release =>
    obtain rfl := Option.some.inj h
    exact List.mem_singleton_self _
  | jump target =>
    obtain rfl := Option.some.inj h
    exact List.mem_singleton_self _
  | branch condition yes no =>
    simp only [Activation.effect] at h
    split at h
    · obtain rfl := Option.some.inj h
      rename_i b _
      cases b with
      | true => exact List.mem_cons_self
      | false => exact List.mem_cons_of_mem _ List.mem_cons_self
    · cases h
  | iterNext out iterator done =>
    simp only [Activation.effect] at h
    split at h
    · obtain rfl := Option.some.inj h
      exact List.mem_cons_self
    · obtain rfl := Option.some.inj h
      exact List.mem_cons_of_mem _ List.mem_cons_self
    · cases h

/-- A step follows an edge of the function. -/
lemma step_edge (hf : f.prepareCache = .ok f)
    (htargets : ∃ targets, f.successors a.pc = .ok targets) (h : a.step F C f reply = some b) :
    f.Edge a.pc b.pc := by
  obtain ⟨op, effect, hop, heffect, happly⟩ := step_operation hf h
  obtain ⟨targets, ht⟩ := htargets
  refine ⟨targets, ht, ?_⟩
  obtain ⟨op', hop', ht'⟩ := Except.bind_eq_ok.1 ht
  obtain rfl := Except.ok.inj (hop.symm.trans hop')
  obtain ⟨u, -, ht'⟩ := Except.bind_eq_ok.1 ht'
  obtain rfl := Except.ok.inj ht'
  rw [apply_pc happly]
  exact effect_targets heffect

/-- An activation begins at the entry. -/
lemma enter_pc {args : List Value} (h : enter f args = some a) : a.pc = 0 := by
  unfold enter at h
  split_ifs at h
  exact congrArg Activation.pc (Option.some.inj h).symm

lemma handed_value {operands : List Nat} {v : Value} (h : a.handed operands reply = some v) :
    reply = .value v ∧ ∀ n ∈ operands, n < a.slots.length := by
  unfold handed ask at h
  split at h
  · rename_i w hask
    obtain rfl := Option.some.inj h
    split_ifs at hask with hall
    exact ⟨Option.some.inj hask, hall⟩
  · cases h

lemma apply_write {out : Nat} {v : Value} (h : a.apply (.write out v) = some b) :
    out < a.slots.length ∧ b.slots = a.slots.set out v := by
  simp only [apply] at h
  split_ifs at h with hlt
  obtain rfl := Option.some.inj h
  exact ⟨hlt, rfl⟩

/-- A write elsewhere leaves a slot alone. -/
lemma apply_elsewhere {out slot : Nat} {v w : Value} (h : a.apply (.write out w) = some b)
    (hne : out ≠ slot) (hv : b.slots[slot]? = some v) : a.slots[slot]? = some v := by
  rw [(apply_write h).2, List.getElem?_set_ne hne] at hv
  exact hv

lemma apply_here {out : Nat} {v w : Value} (h : a.apply (.write out w) = some b)
    (hv : b.slots[out]? = some v) : w = v := by
  obtain ⟨hlt, hslots⟩ := apply_write h
  rw [hslots, List.getElem?_set_self hlt] at hv
  exact Option.some.inj hv

end Activation

/-! ## Traces -/

/-- The history of an activation, each step with the activation as it found it. -/
abbrev History := List (Reply × Activation)

/-- The activations a function gets to, with the steps that led there. -/
inductive Trace (F : FloatOps) (C : CastOps) (f : Function) : History → Activation → Prop
  | entry {args : List Value} {a : Activation} (start : Activation.enter f args = some a) :
      Trace F C f [] a
  | step {l : History} {a b : Activation} {reply : Reply} (before : Trace F C f l a)
      (step : a.step F C f reply = some b) : Trace F C f (l ++ [(reply, a)]) b

/-- A run is a trace. -/
lemma Trace.of_run {F : FloatOps} {C : CastOps} {f : Function} {a b : Activation} {l : History}
    (hstart : (activations F C f).start a) (hrun : (activations F C f).Run a l b) :
    Trace F C f l b := by
  obtain ⟨args, henter⟩ := hstart
  have h := hrun.history (P := Trace F C f) (fun l a reply b before hl hnext => ?_) [] (.entry henter)
  · exact h
  · obtain ⟨rfl, hstep⟩ := Activation.next_eq_some hnext
    exact .step hl hstep

end Exec

end Rnx
