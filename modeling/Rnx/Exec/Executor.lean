import Rnx.Code.Validate
import Rnx.Exec.Activation
import Rnx.Exec.Straight

/-!
# The executor

The frames of `execute.rs` over one stack of slots: a call pushes the callee's window behind the
caller's, a return takes it off and puts the value into the caller's.  An instruction is fetched from
the cache, charged, and performed on the innermost window (`Activation.effect`); what the store
answers it is given, as there.  `Stop.invalid` stands for the branches that say the code is invalid
where it was validated; every other failure is `Stop.failed`.
-/

namespace Rnx

namespace Function

/-- One function of `finish_validated`: validated against them all, charged and cached. -/
def sealed (env : Callees) (f : Function) : Except Error Function := do
  f.validateOperands env
  f.finishValidated

end Function

namespace Exec

/-- A frame: its function, where it stands, the first slot of its window, and the slot its result
goes to. -/
structure Executor.Frame where
  function : Nat
  pc : Nat
  base : Nat
  out : Option Nat
deriving DecidableEq

/-- The executor, its frames from the innermost on. -/
structure Executor where
  frames : List Executor.Frame
  slots : List Value
  fuel : Nat
  canceled : Bool
deriving DecidableEq

/-- How an invocation ends. -/
inductive Stop
  | returned (v : Value)
  | cancelled
  | fuelExhausted
  | frameCapacity
  | panicked
  | failed
  | invalid
deriving DecidableEq

/-- What an instruction is answered: a reply, the parts of a closure or of a variant, an error. -/
inductive Answer
  | reply (r : Reply)
  | closure (owner function : Nat) (captures : List Value)
  | variant (success : Bool) (payload : Option Value)
  | failed
deriving DecidableEq

/-- What is fixed during an invocation: the code, its functions and their pools, the limits. -/
structure Setting where
  floats : FloatOps
  casts : CastOps
  code : Nat
  functions : List Function
  limits : ExecutorLimits

namespace Executor

variable (S : Setting) (e : Executor)

/-- The charge of an instruction, and the look at a pending cancellation. -/
def charge (charged : Bool) : Except Stop Executor :=
  if charged = false then .ok e
  else if e.canceled then .error .cancelled
  else if e.fuel = 0 then .error .fuelExhausted
  else .ok { e with fuel := e.fuel - 1 }

/-- `put`. -/
def put (index : Nat) (v : Value) : Except Stop Executor :=
  if index < e.slots.length then .ok { e with slots := e.slots.set index v } else .error .invalid

/-- `leave`: the innermost frame and its window are dropped. -/
def leave : Except Stop Executor :=
  match e.frames with
  | [] => .error .invalid
  | frame :: frames => .ok { e with frames := frames, slots := e.slots.take frame.base }

/-- A result, for the caller or for the host. -/
def deliver (out : Option Nat) (v : Value) : Except Stop Executor :=
  match out with
  | some out => e.put out v
  | none => .error (.returned v)

/-- `push_call` and `push_closure_call`: the window of a call, behind all others. -/
def pushCall (g : Function) (args : List Value) (function : Nat) (out : Option Nat) :
    Except Stop Executor :=
  if S.limits.frames < e.frames.length + 1 ∨ S.limits.slots < e.slots.length + g.slots then
    .error .frameCapacity
  else if g.slots < args.length then .error .invalid
  else .ok { e with
    frames := ⟨function, 0, e.slots.length, out⟩ :: e.frames
    slots := e.slots ++ (args ++ List.replicate (g.slots - args.length) .unit) }

/-- `enter`, from the host. -/
def enter (function : Nat) (args : List Value) : Except Stop Executor := do
  let g ← okOr S.functions[function]? .invalid
  ensure (args.length = g.parameters) .invalid
  e.pushCall S g args function none

/-- `commit_pc` of the innermost frame. -/
def commit (pc : Nat) : Executor :=
  match e.frames with
  | [] => e
  | frame :: frames => { e with frames := { frame with pc := pc } :: frames }

/-- The slots of the innermost window. -/
def window (frame : Frame) : List Value := e.slots.drop frame.base

/-- A call of one of the functions, whose arguments are slots of the caller. -/
def call (frame : Frame) (g : Function) (callee out : Nat) (args : List Value) :
    Except Stop Executor :=
  (e.commit (frame.pc + 1)).pushCall S g args callee (some (frame.base + out))

/-- What an instruction does to its window. -/
def resume (frame : Frame) : Effect → Except Stop Executor
  | .write out v => (e.commit (frame.pc + 1)).put (frame.base + out) v
  | .goto pc => .ok (e.commit pc)
  | .next => .ok (e.commit (frame.pc + 1))

/-- The value of a reply. -/
def replied : Answer → Except Stop Value
  | .reply (.value v) => .ok v
  | _ => .error .failed

/-- The arms of `Op::Call` and `Op::CallValue`, and of the instructions that leave the frame; every
other instruction has its effect. -/
def perform (frame : Frame) (f : Function) (op : Op) (answer : Answer) : Except Stop Executor :=
  let values (start len : Nat) : List Value :=
    ((f.argList start len).getD []).filterMap fun n => (e.window frame)[n]?
  match op with
  | .panic _ => .error .panicked
  | .returnValue value => do
      let v ← okOr (e.window frame)[value]? .invalid
      let e ← e.leave
      e.deliver frame.out v
  | .tryValue out value => do
      let v ← okOr (e.window frame)[value]? .invalid
      match answer with
      | .variant true (some payload) => e.resume frame (.write out payload)
      | .variant false _ =>
          let e ← e.leave
          e.deliver frame.out v
      | _ => .error .failed
  | .call out callee start len =>
      match S.functions[callee]? with
      | some g => e.call S frame g callee out (values start len)
      | none => do
          let v ← replied answer
          e.resume frame (.write out v)
  | .callValue out value start len => do
      let called ← okOr (e.window frame)[value]? .invalid
      match called, answer with
      | .function owner callee, _ =>
          match S.functions[callee]? with
          | some g =>
              if owner = S.code ∧ g.parameters = len then
                e.call S frame g callee out (values start len)
              else .error .failed
          | none => .error .failed
      | .heap _, .closure owner callee captures =>
          match S.functions[callee]? with
          | some g =>
              if owner = S.code ∧ g.parameters = captures.length + len then
                e.call S frame g callee out (captures ++ values start len)
              else .error .failed
          | none => .error .failed
      | _, _ => .error .failed
  | op =>
      match answer with
      | .reply r =>
          match (Activation.mk frame.pc (e.window frame)).effect S.floats S.casts r op with
          | some effect => e.resume frame effect
          | none => .error .failed
      | _ => .error .failed

/-- Whether an operation finds what it uses: its argument range and the slots, the strings and the
specifications it names. -/
def finds (frame : Frame) (f : Function) (op : Op) : Bool :=
  match f.uses op with
  | none => false
  | some u =>
      (u.slots.all fun n => n < (e.window frame).length) &&
        (u.strings.all fun k => k < f.strings.length) &&
        u.specs.all fun d => (loadSpec f.args d).toOption.isSome

/-- One instruction of the loop: fetch, charge, perform. -/
def step (answer : Answer) : Except Stop Executor := do
  let frame ← okOr e.frames.head? .invalid
  let f ← okOr S.functions[frame.function]? .invalid
  let i ← okOr f.cached[frame.pc]? .invalid
  let e ← e.charge i.charged
  if e.finds frame f i.op then e.perform S frame f i.op answer else .error .invalid

end Executor

/-- What happens to an executor: an instruction with its answer, or a request to cancel. -/
inductive Input
  | instruction (answer : Answer)
  | cancel
deriving DecidableEq

/-- The executor of an invocation, from the entry of a function on some fuel.  An instruction yields
whether it was charged. -/
def invocation (S : Setting) (fuel : Nat) : Machine Executor Input (Option Bool) where
  start e := ∃ function args, (Executor.mk [] [] fuel false).enter S function args = .ok e
  next e input :=
    match input with
    | .cancel => some ({ e with canceled := true }, none)
    | .instruction answer =>
        match e.step S answer with
        | .ok e' => some (e', some (decide (e'.fuel ≠ e.fuel)))
        | .error _ => none

end Exec

end Rnx
