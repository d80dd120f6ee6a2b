import Rnx.Code.Encode

/-!
# Validation

`validate_operands` of `code.rs`: what a function has to meet before its instructions are charged
and cached.  Every slot an instruction names is a slot of the frame, its argument range and its keys
are in the pools, the words behind a template are specifications, its callee takes what it is given,
and every target is an instruction.  A compound update of a tuple or of a field is one group of
instructions that nothing jumps into.
-/

namespace Rnx

/-! ## Template specifications -/

/-- `format_spec::WORDS`. -/
def specWords : Nat := 6

/-- `format_spec::MAX_ARGUMENT`. -/
def maxArgument : Nat := 65535

/-- The error of a specification. -/
def specInvalid : Error := .new .invalidCode "template spec"

/-- `Spec::from_words`. -/
def specFromWords : List Nat → Except Error (List Nat)
  | [flags, fill, align, width, precision, kind] =>
      if 15 < flags ∨ ¬fill.isValidChar ∨ 2 < align ∨ maxArgument < width ∨
          maxArgument + 1 < precision ∨ 1 < kind then .error specInvalid
      else .ok [flags, fill, align, width, precision, kind]
  | _ => .error specInvalid

/-- `format_spec::load`: the specification a descriptor stands for, behind its debug flag. -/
def loadSpec (args : List Nat) (descriptor : Nat) : Except Error (Bool × Option (List Nat)) :=
  if descriptor < 2 then .ok (descriptor != 0, none)
  else do
    let start := descriptor - 2
    ensure (start + specWords ≤ args.length) specInvalid
    let words ← specFromWords ((args.drop start).take specWords)
    .ok (words[5]? != some 0, some words)

/-! ## What an instruction uses -/

/-- `chunks_exact(2)`. -/
def pairs : List Nat → List (Nat × Nat)
  | a :: b :: rest => (a, b) :: pairs rest
  | _ => []

/-- The slots an operation names. -/
def Op.named : Op → List Nat
  | .template out _ _ | .string out _ | .literal out _ | .record out _ _ _ | .call out _ _ _
  | .list out _ _ _ => [out]
  | .print value | .release value | .returnValue value | .drop value | .panic value => [value]
  | .variant out _ _ payload => out :: payload.toList
  | .tryValue out value | .iterStart out value | .clone out value _ | .stringFrom out value
  | .copy out value | .unary out _ value | .cast out value _ | .is out value _ _ | .len out value
  | .field out value _ | .fieldGetMut out value _ | .callValue out value _ _ => [out, value]
  | .range out start finish => [out, start, finish]
  | .iterNext out iterator _ => [out, iterator]
  | .assignBinary out _ lhs rhs | .binary out _ lhs rhs => [out, lhs, rhs]
  | .setField value _ new | .fieldSetMut value _ new | .push value new => [value, new]
  | .get out value index | .tupleField out value index | .tupleFieldGetMut out value index =>
      [out, value, index]
  | .set value index new | .setTupleField value index new | .tupleFieldSetMut value index new =>
      [value, index, new]
  | .branch condition _ _ => [condition]
  | .jump _ => []

/-- What a function is validated against: the program's identity and functions, the arity of the
intrinsics and hosts, and the types that are declared. -/
structure Callees where
  code : Nat
  functions : List Function
  arity : Nat → Option Nat
  valid : Ty → Bool
  identity : Nominal → Option Nat

namespace Function

/-- An argument range, when it ends within `limit`. -/
def argRange (f : Function) (limit start len : Nat) : Except Error (List Nat) := do
  let stop ← okOr (checkedAdd32 start len) invalid
  ensure (stop ≤ limit) invalid
  ensure (stop ≤ f.args.length) invalid
  .ok ((f.args.drop start).take len)

/-- A slot of the frame. -/
def slot (f : Function) (n : Nat) : Except Error Unit := ensure (n < f.slots) invalid

/-! ## The argument suffix -/

/-- The pairs of a template. -/
def templateParts (f : Function) (start len : Nat) : Except Error (List (Nat × Nat)) := do
  ensure (len % 2 = 0 ∧ len ≤ 8192) invalid
  let parts ← f.argRange f.args.length start len
  .ok (pairs parts)

/-- Where the specifications of one instruction begin at the latest. -/
def suffixFrom (f : Function) (start : Nat) (i : Instruction) : Except Error Nat := do
  match ← f.decode i with
  | .template _ argsStart argsLen =>
      let parts ← f.templateParts argsStart argsLen
      .ok ((parts.filter (2 ≤ ·.2)).foldl (fun start pair => min start (pair.2 - 2)) start)
  | _ => .ok start

/-- The records of the suffix. -/
def specRecords : Nat → List Nat → Except Error Unit
  | 0, _ => .ok ()
  | n + 1, words => do
      let _ ← specFromWords (words.take specWords)
      specRecords n (words.drop specWords)

/-- A descriptor names a record of the suffix. -/
def descriptorFits (f : Function) (start : Nat) (pair : Nat × Nat) : Except Error Unit :=
  ensure (pair.2 < 2 ∨ (start ≤ pair.2 - 2 ∧ (pair.2 - 2 - start) % specWords = 0 ∧
    pair.2 - 2 + specWords ≤ f.args.length)) invalid

/-- The template of one instruction lies before the suffix, and its descriptors in it. -/
def templateFits (f : Function) (start : Nat) (i : Instruction) : Except Error Unit := do
  match ← f.decode i with
  | .template _ argsStart argsLen =>
      let parts ← f.argRange start argsStart argsLen
      (pairs parts).forM (f.descriptorFits start)
  | _ => .ok ()

/-- `template_args_prefix`: where the suffix begins that holds the specifications. -/
def templateArgsPrefix (f : Function) : Except Error Nat := do
  let start ← f.code.foldlM f.suffixFrom f.args.length
  ensure ((f.args.length - start) % specWords = 0) invalid
  specRecords ((f.args.length - start) / specWords) (f.args.drop start)
  f.code.forM (f.templateFits start)
  .ok start

/-! ## Compound updates -/

/-- Whether the instruction belongs to a compound update, behind its first. -/
def interior (f : Function) (target : Nat) : Except Error Bool := do
  match ← f.operation target with
  | .tupleFieldGetMut _ _ _ | .tupleFieldSetMut _ _ _ | .fieldSetMut _ _ _ => .ok true
  | .assignBinary _ _ _ _ =>
      if 1 ≤ target then
        match ← f.operation (target - 1) with
        | .tupleFieldGetMut _ _ _ | .fieldGetMut _ _ _ => .ok true
        | _ => .ok false
      else .ok false
  | .literal _ _ =>
      if 2 ≤ target then
        match ← f.operation (target - 2) with
        | .tupleFieldGetMut _ _ _ => .ok true
        | _ => .ok false
      else .ok false
  | _ => .ok false

/-- Nothing may lead here but the instruction before. -/
def outside (f : Function) (target : Nat) : Except Error Unit := do
  let inside ← f.interior target
  ensure (inside = false) invalid

/-- A compound update of a field: read, compute, write back. -/
def fieldUpdate (f : Function) (pc out value key : Nat) : Except Error Unit := do
  match ← f.operation (pc + 1) with
  | .assignBinary result _ lhs rhs =>
      match ← f.operation (pc + 2) with
      | .fieldSetMut target writeKey new =>
          ensure (out ≠ value ∧ out ≠ rhs ∧ value ≠ rhs ∧ result = out ∧ lhs = out ∧
            target = value ∧ f.strings[writeKey]? = f.strings[key]? ∧ new = out) invalid
      | _ => .error invalid
  | _ => .error invalid

/-- An index. -/
def nonnegative : Value → Bool
  | .i64 n => decide (0 ≤ n.val)
  | _ => false

/-- A compound update of a tuple's element, whose index is the literal before it and again the
literal before the write. -/
def tupleUpdate (f : Function) (pc out value index : Nat) : Except Error Unit := do
  ensure (pc ≠ 0 ∧ out ≠ value ∧ out ≠ index) invalid
  match ← f.operation (pc - 1) with
  | .literal readIndex readLiteral =>
      match ← f.operation (pc + 1) with
      | .assignBinary result _ lhs rhs =>
          match ← f.operation (pc + 2) with
          | .literal writeIndex writeLiteral =>
              match ← f.operation (pc + 3) with
              | .tupleFieldSetMut target writeSlot new =>
                  ensure (index = readIndex ∧ readLiteral = writeLiteral ∧
                    nonnegative readLiteral = true ∧ result = out ∧ lhs = out ∧ rhs ≠ out ∧ target = value ∧ new = out ∧
                    writeSlot = writeIndex ∧ writeIndex ≠ value ∧ writeIndex ≠ out ∧
                    writeIndex ≠ rhs) invalid
              | _ => .error invalid
          | _ => .error invalid
      | _ => .error invalid
  | _ => .error invalid

/-- One instruction of `validate_tuple_updates`. -/
def validateUpdate (f : Function) (pc : Nat) : Except Error Unit := do
  match ← f.operation pc with
  | .fieldGetMut out value key => f.fieldUpdate pc out value key
  | .fieldSetMut _ _ _ =>
      if pc < 2 then .error invalid
      else
        match ← f.operation (pc - 2) with
        | .fieldGetMut _ _ _ => .ok ()
        | _ => .error invalid
  | .tupleFieldGetMut out value index => f.tupleUpdate pc out value index
  | .tupleFieldSetMut _ _ _ =>
      if pc < 3 then .error invalid
      else
        match ← f.operation (pc - 3) with
        | .tupleFieldGetMut _ _ _ => .ok ()
        | _ => .error invalid
  | .jump target => f.outside target
  | .branch _ yes no => do
      f.outside yes
      f.outside no
  | .iterNext _ _ done => f.outside done
  | _ => .ok ()

/-- `validate_tuple_updates`. -/
def validateTupleUpdates (f : Function) : Except Error Unit :=
  (List.range f.code.length).forM f.validateUpdate

end Function

/-! ## The callee of a call -/

/-- `variant_test_id`. -/
def variantTestId (id : Nat) : Option Nat :=
  if id / 2 ^ 28 = 9 then some (id % 2 ^ 28) else none

namespace Function

/-- `variant_test_tag`. -/
def variantTestTag (f : Function) (index : Nat) : Option Nominal :=
  match f.types[index]? with
  | some (.struct nominal) => some nominal
  | _ => none

/-- Whether a declared type has the identity. -/
def identified (env : Callees) (identity : Nat) : Ty → Bool
  | .struct n => env.identity n == some identity
  | _ => false

/-- The callee takes as many arguments as it is given. -/
def calleeFits (f : Function) (env : Callees) (callee len : Nat) : Except Error Unit :=
  match variantTestType callee, variantTestId callee, env.functions[callee]? with
  | some index, _, _ => ensure (len = 1 ∧ (f.variantTestTag index).isSome) invalid
  | none, some identity, _ => ensure (len = 1 ∧ f.types.any (identified env identity)) invalid
  | none, none, some g => ensure (len = g.parameters) invalid
  | none, none, none => do
      let arity ← okOr (env.arity callee) invalid
      ensure (len = arity) invalid

/-- The fields of a record, whose keys differ. -/
def recordFields (f : Function) : List (List Char) → List (Nat × Nat) → Except Error Unit
  | _, [] => .ok ()
  | before, (k, n) :: rest => do
      let key ← okOr f.strings[k]? invalid
      f.slot n
      ensure (before.contains key = false) invalid
      recordFields f (key :: before) rest

/-- A literal is no handle, and names no function and no type but the program's. -/
def literalFits (env : Callees) : Value → Bool
  | .heap _ => false
  | .function code id => code == env.code && decide (id < env.functions.length)
  | .type tag => env.valid tag
  | _ => true

/-- The tags of a record. -/
def recordTag : Ty → Bool
  | .object | .struct _ => true
  | _ => false

/-- The tags of a list. -/
def listTag : Ty → Bool
  | .vec | .tuple | .struct _ => true
  | _ => false

/-- One instruction of `validate_operands`: every arm checks the slots its operation names. -/
def validateOp (f : Function) (env : Callees) (limit : Nat) (op : Op) : Except Error Unit := do
  op.named.forM f.slot
  match op with
  | .template _ start len => do
      ensure (len % 2 = 0 ∧ len ≤ 8192) invalid
      let parts ← f.argRange limit start len
      (pairs parts).forM fun pair => do
        f.slot pair.1
        let _ ← loadSpec f.args pair.2
        .ok ()
  | .string _ text => ensure (text < f.strings.length) invalid
  | .literal _ value => ensure (literalFits env value = true) invalid
  | .record _ tag start len => do
      ensure (recordTag tag = true ∧ len % 2 = 0) invalid
      let entries ← f.argRange limit start len
      f.recordFields [] (pairs entries)
  | .field _ _ key | .fieldGetMut _ _ key | .setField _ key _ | .fieldSetMut _ key _ => do
      let _ ← okOr f.strings[key]? invalid
      .ok ()
  | .callValue _ _ start len => do
      let values ← f.argRange limit start len
      values.forM f.slot
  | .call _ callee start len => do
      f.calleeFits env callee len
      let values ← f.argRange limit start len
      values.forM f.slot
  | .list _ tag start len => do
      ensure (listTag tag = true) invalid
      let values ← f.argRange limit start len
      values.forM f.slot
  | _ => .ok ()

/-- `validate_operands`. -/
def validateOperands (f : Function) (env : Callees) : Except Error Unit := do
  f.validateTupleUpdates
  let limit ← f.templateArgsPrefix
  ensure (f.types.all env.valid = true) invalid
  f.code.forM fun i => do
    let op ← f.decode i
    f.validateOp env limit op
  (List.range f.code.length).forM fun pc => do
    let _ ← f.successors pc
    .ok ()

end Function

/-! ## What a valid instruction uses -/

/-- The slots, the strings and the descriptors an operation uses. -/
structure Uses where
  slots : List Nat
  strings : List Nat
  specs : List Nat

namespace Function

/-- An argument range of the pool. -/
def argList (f : Function) (start len : Nat) : Option (List Nat) :=
  if start + len ≤ f.args.length then some ((f.args.drop start).take len) else none

/-- What an operation uses, once its argument range is read. -/
def uses (f : Function) (op : Op) : Option Uses :=
  match op with
  | .template _ start len =>
      (f.argList start len).map fun args =>
        ⟨op.named ++ (pairs args).map Prod.fst, [], (pairs args).map Prod.snd⟩
  | .record _ _ start len =>
      (f.argList start len).map fun args =>
        ⟨op.named ++ (pairs args).map Prod.snd, (pairs args).map Prod.fst, []⟩
  | .callValue _ _ start len | .call _ _ start len | .list _ _ start len =>
      (f.argList start len).map fun args => ⟨op.named ++ args, [], []⟩
  | .string _ text => some ⟨op.named, [text], []⟩
  | .field _ _ key | .fieldGetMut _ _ key | .setField _ key _ | .fieldSetMut _ key _ =>
      some ⟨op.named, [key], []⟩
  | _ => some ⟨op.named, [], []⟩

/-- Everything an operation uses is there. -/
def Fits (f : Function) (op : Op) : Prop :=
  ∃ u, f.uses op = some u ∧ (∀ n ∈ u.slots, n < f.slots) ∧
    (∀ k ∈ u.strings, k < f.strings.length) ∧ ∀ d ∈ u.specs, ∃ r, loadSpec f.args d = .ok r

/-- A call has as many arguments as its callee takes. -/
def Answers (env : Callees) (op : Op) : Prop :=
  ∀ out callee start len g, op = .call out callee start len → variantTestType callee = none →
    variantTestId callee = none → env.functions[callee]? = some g → len = g.parameters

variable {f g : Function} {env : Callees} {limit pc start len : Nat} {op : Op} {args : List Nat}

lemma slots_eq_ok {ns : List Nat} : ns.forM f.slot = .ok () ↔ ∀ n ∈ ns, n < f.slots := by
  rw [Except.forM_eq_ok]
  exact forall₂_congr fun n _ => ensure_eq_ok

lemma argRange_argList (h : f.argRange limit start len = .ok args) : f.argList start len = some args := by
  obtain ⟨stop, hstop, h⟩ := Except.bind_eq_ok.1 h
  obtain ⟨_, -, h⟩ := Except.bind_eq_ok.1 h
  obtain ⟨_, hle, h⟩ := Except.bind_eq_ok.1 h
  obtain rfl := Except.ok.inj h
  obtain rfl := (checkedAdd32_eq_some (okOr_eq_ok.1 hstop)).1
  exact if_pos (ensure_eq_ok.1 hle)

lemma recordFields_eq_ok {before : List (List Char)} {entries : List (Nat × Nat)}
    (h : f.recordFields before entries = .ok ()) :
    ∀ entry ∈ entries, entry.1 < f.strings.length ∧ entry.2 < f.slots := by
  induction entries generalizing before with
  | nil => exact fun entry hentry => absurd hentry List.not_mem_nil
  | cons entry entries ih =>
    obtain ⟨key, hkey, h⟩ := Except.bind_eq_ok.1 h
    obtain ⟨_, hslot, h⟩ := Except.bind_eq_ok.1 h
    obtain ⟨_, -, h⟩ := Except.bind_eq_ok.1 h
    refine List.forall_mem_cons.2 ⟨⟨?_, ensure_eq_ok.1 hslot⟩, ih h⟩
    exact (List.getElem?_eq_some_iff.1 (okOr_eq_ok.1 hkey)).1

/-- An operation without an argument range fits when its slots and keys are there. -/
lemma fits_of_named (hnamed : ∀ n ∈ op.named, n < f.slots) {strings : List Nat}
    (huses : f.uses op = some ⟨op.named, strings, []⟩)
    (hstrings : ∀ k ∈ strings, k < f.strings.length) : f.Fits op :=
  ⟨_, huses, hnamed, hstrings, List.forall_mem_nil _⟩

/-- An operation whose argument range holds slots. -/
lemma fits_of_args (hnamed : ∀ n ∈ op.named, n < f.slots)
    (huses : f.uses op = (f.argList start len).map fun args => ⟨op.named ++ args, [], []⟩)
    (hargs : f.argRange limit start len = .ok args) (hslots : ∀ n ∈ args, n < f.slots) :
    f.Fits op := by
  refine ⟨⟨op.named ++ args, [], []⟩, ?_, ?_, List.forall_mem_nil _, List.forall_mem_nil _⟩
  · rw [huses, argRange_argList hargs]
    rfl
  · exact fun n hn => (List.mem_append.1 hn).elim (hnamed n) (hslots n)

lemma validateOp_fits (h : f.validateOp env limit op = .ok ()) : f.Fits op ∧ Answers env op := by
  obtain ⟨_, hnamed, h⟩ := Except.bind_eq_ok.1 h
  have hnamed := slots_eq_ok.1 hnamed
  have hplain : (∀ out callee start len, op ≠ .call out callee start len) → Answers env op :=
    fun hne out callee start len g heq => absurd heq (hne out callee start len)
  cases op with
  | template out start len =>
    obtain ⟨_, -, h⟩ := Except.bind_eq_ok.1 h
    obtain ⟨parts, hparts, h⟩ := Except.bind_eq_ok.1 h
    have hall := Except.forM_eq_ok.1 h
    refine ⟨⟨_, by rw [uses, argRange_argList hparts]; rfl, fun n hn => ?_, List.forall_mem_nil _,
      fun d hd => ?_⟩, hplain fun _ _ _ _ => Op.noConfusion⟩
    · rcases List.mem_append.1 hn with hn | hn
      · exact hnamed n hn
      · obtain ⟨pair, hpair, rfl⟩ := List.mem_map.1 hn
        obtain ⟨_, hslot, -⟩ := Except.bind_eq_ok.1 (hall pair hpair)
        exact ensure_eq_ok.1 hslot
    · obtain ⟨pair, hpair, rfl⟩ := List.mem_map.1 hd
      obtain ⟨_, -, hload⟩ := Except.bind_eq_ok.1 (hall pair hpair)
      obtain ⟨r, hr, -⟩ := Except.bind_eq_ok.1 hload
      exact ⟨r, hr⟩
  | record out tag start len =>
    obtain ⟨_, -, h⟩ := Except.bind_eq_ok.1 h
    obtain ⟨entries, hentries, h⟩ := Except.bind_eq_ok.1 h
    have hall := recordFields_eq_ok h
    refine ⟨⟨_, by rw [uses, argRange_argList hentries]; rfl, fun n hn => ?_, fun k hk => ?_,
      List.forall_mem_nil _⟩, hplain fun _ _ _ _ => Op.noConfusion⟩
    · rcases List.mem_append.1 hn with hn | hn
      · exact hnamed n hn
      · obtain ⟨pair, hpair, rfl⟩ := List.mem_map.1 hn
        exact (hall pair hpair).2
    · obtain ⟨pair, hpair, rfl⟩ := List.mem_map.1 hk
      exact (hall pair hpair).1
  | callValue out value start len =>
    obtain ⟨args, hargs, h⟩ := Except.bind_eq_ok.1 h
    exact ⟨fits_of_args hnamed rfl hargs (slots_eq_ok.1 h),
      hplain fun _ _ _ _ => Op.noConfusion⟩
  | list out tag start len =>
    obtain ⟨_, -, h⟩ := Except.bind_eq_ok.1 h
    obtain ⟨args, hargs, h⟩ := Except.bind_eq_ok.1 h
    exact ⟨fits_of_args hnamed rfl hargs (slots_eq_ok.1 h),
      hplain fun _ _ _ _ => Op.noConfusion⟩
  | call out callee start len =>
    obtain ⟨_, hcallee, h⟩ := Except.bind_eq_ok.1 h
    obtain ⟨args, hargs, h⟩ := Except.bind_eq_ok.1 h
    refine ⟨fits_of_args hnamed rfl hargs (slots_eq_ok.1 h), ?_⟩
    intro out' callee' start' len' g heq htype hid hg
    obtain ⟨rfl, rfl, rfl, rfl⟩ := Op.call.inj heq
    unfold calleeFits at hcallee
    rw [htype, hid, hg] at hcallee
    exact ensure_eq_ok.1 hcallee
  | string out text =>
    refine ⟨fits_of_named hnamed rfl fun k hk => ?_, hplain fun _ _ _ _ => Op.noConfusion⟩
    rw [List.mem_singleton.1 hk]
    exact ensure_eq_ok.1 h
  | field out value key | fieldGetMut out value key | setField value key new
  | fieldSetMut value key new =>
    refine ⟨fits_of_named hnamed rfl fun k hk => ?_, hplain fun _ _ _ _ => Op.noConfusion⟩
    obtain ⟨text, htext, -⟩ := Except.bind_eq_ok.1 h
    rw [List.mem_singleton.1 hk]
    exact (List.getElem?_eq_some_iff.1 (okOr_eq_ok.1 htext)).1
  | print | tupleFieldGetMut | tupleFieldSetMut | tupleField | setTupleField | variant | tryValue
  | range | iterStart | iterNext | stringFrom | panic | clone | assignBinary | literal | copy
  | release | unary | binary | cast | is | jump | branch | returnValue | get | set | len | push
  | drop =>
    exact ⟨fits_of_named hnamed rfl (List.forall_mem_nil _), hplain fun _ _ _ _ => Op.noConfusion⟩

/-- What validation leaves: every instruction decodes to an operation that fits, calls what answers,
and goes on to instructions of the function. -/
structure Valid (f : Function) (env : Callees) : Prop where
  operation : ∀ pc < f.code.length, ∃ op, f.operation pc = .ok op ∧ f.Fits op ∧ Answers env op
  targets : ∀ pc < f.code.length, ∃ targets, f.successors pc = .ok targets

lemma validateOperands_valid (h : f.validateOperands env = .ok ()) : f.Valid env := by
  obtain ⟨_, -, h⟩ := Except.bind_eq_ok.1 h
  obtain ⟨limit, -, h⟩ := Except.bind_eq_ok.1 h
  obtain ⟨_, -, h⟩ := Except.bind_eq_ok.1 h
  obtain ⟨_, hcode, h⟩ := Except.bind_eq_ok.1 h
  refine ⟨fun pc hpc => ?_, fun pc hpc => ?_⟩
  · obtain ⟨op, hop, hvalid⟩ :=
      Except.bind_eq_ok.1 (Except.forM_eq_ok.1 hcode f.code[pc] (List.getElem_mem hpc))
    refine ⟨op, ?_, validateOp_fits hvalid⟩
    exact Except.bind_eq_ok.2 ⟨f.code[pc], okOr_eq_ok.2 (List.getElem?_eq_getElem hpc), hop⟩
  · obtain ⟨targets, ht, -⟩ :=
      Except.bind_eq_ok.1 (Except.forM_eq_ok.1 h pc (List.mem_range.2 hpc))
    exact ⟨targets, ht⟩

/-- Validity does not depend on what is charged. -/
lemma Valid.recharged (h : f.Valid env) (hr : Recharged f g) (hpools : g.args = f.args)
    (hstrings : g.strings = f.strings) (hslots : g.slots = f.slots) : g.Valid env := by
  have huses : ∀ op, g.uses op = f.uses op := by
    intro op
    unfold uses argList
    rw [hpools]
  refine ⟨fun pc hpc => ?_, fun pc hpc => ?_⟩
  · obtain ⟨op, hop, ⟨u, hu, hfit⟩, hanswers⟩ := h.operation pc (hr.length ▸ hpc)
    refine ⟨op, (hr.operation pc).trans hop, ⟨u, (huses op).trans hu, ?_⟩, hanswers⟩
    rw [hslots, hstrings, hpools]
    exact hfit
  · obtain ⟨targets, ht⟩ := h.targets pc (hr.length ▸ hpc)
    exact ⟨targets, (hr.successors pc).trans ht⟩

end Function

end Rnx
