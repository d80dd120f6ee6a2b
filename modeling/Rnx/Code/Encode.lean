import Rnx.Code.Charge
import Rnx.Lib.ErrState
import Rnx.Store.State
import Mathlib.Data.List.Forall2

/-!
# Writing instructions

The encoder of `code.rs`: an operation becomes four words, and what does not fit into them (an
argument range, a type, a constant) goes into a pool of the function.  Pools only grow, so what
was written earlier keeps its meaning.  An encoder that fails may leave its last pool entries
behind: the function is the state in both cases.

The pass over the types at the end of a compilation changes the pools and the decoded cache one
beside the other; `remap_cached` says that they still agree.
-/

namespace Rnx

open ErrState (get update fail read guardWith)

/-- `MAX_CODE_BYTES`. -/
def maxCodeBytes : Nat := 16 * 2 ^ 20

/-- `size_of::<Instruction>()`. -/
def sizeInstruction : Nat := 16

/-- `size_of::<Type>()`, and of a range of arguments. -/
def sizeType : Nat := 8

/-! ## Operators as numbers -/

/-- `op as u32`, of a binary operator. -/
def Binary.code : Binary → Nat
  | .add => 0
  | .sub => 1
  | .mul => 2
  | .div => 3
  | .rem => 4
  | .eq => 5
  | .ne => 6
  | .lt => 7
  | .le => 8
  | .gt => 9
  | .ge => 10
  | .bitAnd => 11
  | .bitOr => 12
  | .bitXor => 13
  | .shl => 14
  | .shr => 15

lemma Binary.code_lt (op : Binary) : op.code < 16 := by cases op <;> decide

lemma Binary.binaryCode_code (op : Binary) : binaryCode op.code = some op := by cases op <;> rfl

/-- `op as u32`, of a unary operator. -/
def Unary.code : Unary → Nat
  | .neg => 0
  | .not => 1

/-- `mode as u32`. -/
def CloneMode.code : CloneMode → Nat
  | .associated => 0
  | .global => 1

namespace Function

/-- A method of a function under construction. -/
abbrev Building := ErrState Error Function

/-! ## Pools -/

/-- `pool`: append to a pool whose elements take `size` bytes. -/
def pool {α : Type} (size : Nat) (items : Function → List α) (store : Function → List α → Function)
    (value : α) : Building Nat := do
  let f ← get
  guardWith ((items f).length < maxCodeBytes / size) invalid
  update fun f => store f (items f ++ [value])
  pure (items f).length

/-- The ranges of arguments. -/
def poolRange : Nat × Nat → Building Nat := pool sizeType ranges fun f ranges => { f with ranges }

/-- The types. -/
def poolType : Ty → Building Nat := pool sizeType types fun f types => { f with types }

/-- The constants. -/
def poolConstant : Value → Building Nat :=
  pool sizeValue constants fun f constants => { f with constants }

/-! ## Instructions -/

/-- An instruction that is not charged. -/
def word (opcode a b c : Nat) : Instruction := ⟨opcode, false, a, b, c⟩

/-- `encode`. -/
def encode : Op → Building Instruction
  | .template out start len => do
      let r ← poolRange (start, len)
      pure (word 34 out r 0)
  | .print value => pure (word 35 value 0 0)
  | .stringFrom out value => pure (word 40 out value 0)
  | .panic value => pure (word 41 value 0 0)
  | .tupleFieldGetMut out value index => pure (word 36 out value index)
  | .tupleFieldSetMut value index new => pure (word 37 value index new)
  | .tupleField out value index => pure (word 32 out value index)
  | .setTupleField value index new => pure (word 33 value index new)
  | .record out tag start len => do
      let t ← poolType tag
      let r ← poolRange (start, len)
      pure (word 29 out t r)
  | .fieldGetMut out value key => pure (word 38 out value key)
  | .fieldSetMut value key new => pure (word 39 value key new)
  | .field out value key => pure (word 30 out value key)
  | .setField value key new => pure (word 31 value key new)
  | .variant out .option true (some payload) => pure (word 24 out payload 0)
  | .variant out .option false none => pure (word 25 out 0 0)
  | .variant out .result true (some payload) => pure (word 26 out payload 0)
  | .variant out .result false (some payload) => pure (word 27 out payload 0)
  | .variant _ _ _ _ => fail invalid
  | .tryValue out value => pure (word 28 out value 0)
  | .callValue out value start len => do
      let r ← poolRange (start, len)
      pure (word 23 out value r)
  | .range out start finish => pure (word 20 out start finish)
  | .iterStart out value => pure (word 21 out value 0)
  | .iterNext out iterator done => pure (word 22 out iterator done)
  | .literal out value => do
      let c ← poolConstant value
      pure (word 0 out c 0)
  | .string out text => pure (word 1 out text 0)
  | .copy out value => pure (word 2 out value 0)
  | .clone out value mode => pure (word 3 out value mode.code)
  | .release value => pure (word 4 value 0 0)
  | .unary out op value => pure (word (5 + op.code) out value 0)
  | .binary out op lhs rhs => pure (word (100 + op.code) out lhs rhs)
  | .assignBinary out op lhs rhs => pure (word (200 + op.code) out lhs rhs)
  | .cast out value tag => do
      let t ← poolType tag
      pure (word 7 out value t)
  | .is out value tag negate => do
      let t ← poolType tag
      pure (word (8 + negate.toNat) out value t)
  | .jump target => pure (word 10 target 0 0)
  | .branch condition yes no => pure (word 11 condition yes no)
  | .call out function start len => do
      let r ← poolRange (start, len)
      pure (word 12 out function r)
  | .returnValue value => pure (word 13 value 0 0)
  | .list out tag start len => do
      let t ← poolType tag
      let r ← poolRange (start, len)
      pure (word 14 out t r)
  | .get out value index => pure (word 15 out value index)
  | .set value index new => pure (word 16 value index new)
  | .len out value => pure (word 17 out value 0)
  | .push value new => pure (word 18 value new 0)
  | .drop value => pure (word 19 value 0 0)

/-- `push`: append an operation. -/
def push (op : Op) : Building Nat := do
  let f ← get
  guardWith (f.code.length < maxCodeBytes / sizeInstruction) invalid
  let i ← encode op
  update fun f => { f with code := f.code ++ [i] }
  pure f.code.length

/-- `patch`: another operation at `pc`, with the charge of the one it replaces. -/
def patch (pc : Nat) (op : Op) : Building Unit := do
  let old ← read fun f => okOr f.code[pc]? invalid
  let i ← encode op
  update fun f => { f with code := f.code.set pc { i with charged := i.charged || old.charged } }

/-! ## Larger pools -/

/-- The same code and larger pools. -/
structure Grown (f g : Function) : Prop where
  code : g.code = f.code
  ranges : f.ranges <+: g.ranges
  types : f.types <+: g.types
  constants : f.constants <+: g.constants

variable {f g k : Function} {i : Instruction} {op : Op}

lemma getElem?_of_initial {α : Type} {l m : List α} (h : l <+: m) {n : Nat} {a : α}
    (ha : l[n]? = some a) : m[n]? = some a := by
  obtain ⟨t, rfl⟩ := h
  rw [List.getElem?_append_left (List.getElem?_eq_some_iff.1 ha).1]
  exact ha

lemma Grown.decodeRange (h : Grown f g) {n : Nat} {k : Nat → Nat → Op}
    (hd : f.decodeRange n k = some op) : g.decodeRange n k = some op := by
  obtain ⟨r, hr, rfl⟩ := Option.map_eq_some_iff.1 hd
  exact Option.map_eq_some_iff.2 ⟨r, getElem?_of_initial h.ranges hr, rfl⟩

lemma Grown.decodeTag (h : Grown f g) {n : Nat} {k : Ty → Op}
    (hd : f.decodeTag n k = some op) : g.decodeTag n k = some op := by
  obtain ⟨t, ht, rfl⟩ := Option.map_eq_some_iff.1 hd
  exact Option.map_eq_some_iff.2 ⟨t, getElem?_of_initial h.types ht, rfl⟩

lemma Grown.decodeTagRange (h : Grown f g) {n m : Nat} {k : Ty → Nat → Nat → Op}
    (hd : f.decodeTagRange n m k = some op) : g.decodeTagRange n m k = some op := by
  obtain ⟨t, ht, hd⟩ := Option.bind_eq_some_iff.1 hd
  obtain ⟨r, hr, rfl⟩ := Option.map_eq_some_iff.1 hd
  exact Option.bind_eq_some_iff.2 ⟨t, getElem?_of_initial h.types ht,
    Option.map_eq_some_iff.2 ⟨r, getElem?_of_initial h.ranges hr, rfl⟩⟩

lemma Grown.constant (h : Grown f g) {n : Nat} {k : Value → Op}
    (hd : f.constants[n]?.map k = some op) : g.constants[n]?.map k = some op := by
  obtain ⟨v, hv, rfl⟩ := Option.map_eq_some_iff.1 hd
  exact Option.map_eq_some_iff.2 ⟨v, getElem?_of_initial h.constants hv, rfl⟩

lemma Grown.decode? (h : Grown f g) (hd : f.decode? i = some op) : g.decode? i = some op := by
  unfold Function.decode? at hd ⊢
  generalize i.opcode = n at hd ⊢
  split at hd <;> first
    | exact hd
    | exact h.decodeRange hd
    | exact h.decodeTag hd
    | exact h.decodeTagRange hd
    | exact h.constant hd

lemma Grown.refl (f : Function) : Grown f f :=
  ⟨rfl, List.prefix_rfl, List.prefix_rfl, List.prefix_rfl⟩

lemma Grown.trans (h : Grown f g) (h' : Grown g k) : Grown f k :=
  ⟨h'.code.trans h.code, h.ranges.trans h'.ranges, h.types.trans h'.types,
    h.constants.trans h'.constants⟩

lemma pool_wp {α : Type} {size : Nat} {items : Function → List α}
    {store : Function → List α → Function} {value : α}
    (hitems : items (store f (items f ++ [value])) = items f ++ [value])
    (hgrown : Grown f (store f (items f ++ [value]))) :
    ErrState.wp (pool size items store value)
      (fun n g => Grown f g ∧ (items g)[n]? = some value) (fun _ g => Grown f g) f := by
  unfold pool
  rw [ErrState.wp_get_bind]
  refine ErrState.wp_guardWith_bind (fun _ => .refl f) fun _ => ?_
  rw [ErrState.wp_update_bind, ErrState.wp_pure, hitems]
  exact ⟨hgrown, by simp⟩

lemma poolRange_wp (r : Nat × Nat) : ErrState.wp (poolRange r)
    (fun n g => Grown f g ∧ g.ranges[n]? = some r) (fun _ g => Grown f g) f :=
  pool_wp rfl ⟨rfl, List.prefix_append _ _, List.prefix_rfl, List.prefix_rfl⟩

lemma poolType_wp (t : Ty) : ErrState.wp (poolType t)
    (fun n g => Grown f g ∧ g.types[n]? = some t) (fun _ g => Grown f g) f :=
  pool_wp rfl ⟨rfl, List.prefix_rfl, List.prefix_append _ _, List.prefix_rfl⟩

lemma poolConstant_wp (v : Value) : ErrState.wp (poolConstant v)
    (fun n g => Grown f g ∧ g.constants[n]? = some v) (fun _ g => Grown f g) f :=
  pool_wp rfl ⟨rfl, List.prefix_rfl, List.prefix_rfl, List.prefix_append _ _⟩

/-- What an encoded instruction is: it decodes to its operation, in a function with larger pools,
and its opcode leaves the bit of the charge free. -/
structure Encoded (f : Function) (op : Op) (i : Instruction) (g : Function) : Prop where
  grown : Grown f g
  decode : g.decode? i = some op
  opcode : i.opcode < 2 ^ 8
  charged : i.charged = false

lemma opcode_lt {opcode a b c : Nat} (h : opcode < 2 ^ 8) : (word opcode a b c).opcode < 2 ^ 8 := h

/-- An encoder of an operation: whether it succeeds or not, the pools only grow. -/
def Encodes (f : Function) (op : Op) (m : Building Instruction) : Prop :=
  ErrState.wp m (Encoded f op) (fun _ g => Grown f g) f

/-- An encoding that needs no pool. -/
lemma encoded_word {opcode a b c : Nat} (hd : f.decode? (word opcode a b c) = some op)
    (ho : opcode < 2 ^ 8) :
    Encodes f op (pure (word opcode a b c)) :=
  ⟨.refl f, hd, ho, rfl⟩

/-- An encoding with a range of arguments. -/
lemma encoded_range {r : Nat × Nat} {instr : Nat → Instruction}
    (hd : ∀ (n : Nat) (g : Function), g.ranges[n]? = some r → g.decode? (instr n) = some op)
    (ho : ∀ n, (instr n).opcode < 2 ^ 8) (hc : ∀ n, (instr n).charged = false) :
    Encodes f op (do let n ← poolRange r; pure (instr n)) := by
  refine ErrState.wp_seq (poolRange_wp r) (fun _ _ h => h) fun n g h => ?_
  exact ⟨h.1, hd n g h.2, ho n, hc n⟩

/-- An encoding with a type. -/
lemma encoded_type {t : Ty} {instr : Nat → Instruction}
    (hd : ∀ (n : Nat) (g : Function), g.types[n]? = some t → g.decode? (instr n) = some op)
    (ho : ∀ n, (instr n).opcode < 2 ^ 8) (hc : ∀ n, (instr n).charged = false) :
    Encodes f op (do let n ← poolType t; pure (instr n)) := by
  refine ErrState.wp_seq (poolType_wp t) (fun _ _ h => h) fun n g h => ?_
  exact ⟨h.1, hd n g h.2, ho n, hc n⟩

/-- An encoding with a type and a range of arguments. -/
lemma encoded_typeRange {t : Ty} {r : Nat × Nat} {instr : Nat → Nat → Instruction}
    (hd : ∀ (n m : Nat) (g : Function), g.types[n]? = some t → g.ranges[m]? = some r →
      g.decode? (instr n m) = some op)
    (ho : ∀ n m, (instr n m).opcode < 2 ^ 8) (hc : ∀ n m, (instr n m).charged = false) :
    Encodes f op (do let n ← poolType t; let m ← poolRange r; pure (instr n m)) := by
  refine ErrState.wp_seq (poolType_wp t) (fun _ _ h => h) fun n g h => ?_
  refine ErrState.wp_seq (poolRange_wp r) (fun _ _ h' => h.1.trans h') fun m k h' => ?_
  exact ⟨h.1.trans h'.1, hd n m k (getElem?_of_initial h'.1.types h.2) h'.2, ho n m, hc n m⟩

lemma decodeRange_eq {n : Nat} {r : Nat × Nat} {k : Nat → Nat → Op} (h : f.ranges[n]? = some r) :
    f.decodeRange n k = some (k r.1 r.2) := by
  rw [decodeRange, h, Option.map_some]

lemma decodeTag_eq {n : Nat} {t : Ty} {k : Ty → Op} (h : f.types[n]? = some t) :
    f.decodeTag n k = some (k t) := by
  rw [decodeTag, h, Option.map_some]

lemma decodeTagRange_eq {n m : Nat} {t : Ty} {r : Nat × Nat} {k : Ty → Nat → Nat → Op}
    (h : f.types[n]? = some t) (h' : f.ranges[m]? = some r) :
    f.decodeTagRange n m k = some (k t r.1 r.2) := by
  rw [decodeTagRange, h, h']
  rfl

/-- The opcodes of the binary operators follow all others. -/
lemma decode?_operator (h : 42 ≤ i.opcode) : f.decode? i = decodeBinary i.opcode i.a i.b i.c := by
  unfold Function.decode?
  generalize i.opcode = n at h
  split <;> first
    | rfl
    | omega

lemma decodeBinary_binary (op : Binary) (a b c : Nat) :
    decodeBinary (100 + op.code) a b c = some (.binary a op b c) := by
  have := op.code_lt
  rw [decodeBinary, if_neg (by omega), if_pos (by omega), Nat.add_sub_cancel_left,
    op.binaryCode_code, Option.map_some]

lemma decodeBinary_assignBinary (op : Binary) (a b c : Nat) :
    decodeBinary (200 + op.code) a b c = some (.assignBinary a op b c) := by
  rw [decodeBinary, if_pos (by omega), Nat.add_sub_cancel_left, op.binaryCode_code,
    Option.map_some]

/-- Every operation is encoded into an instruction that decodes to it. -/
lemma encodes_encode (f : Function) (op : Op) : Encodes f op (encode op) := by
  cases op with
  | template out start len =>
    exact encoded_range (fun n g h => decodeRange_eq h) (fun _ => opcode_lt (by decide)) fun _ => rfl
  | callValue out value start len =>
    exact encoded_range (fun n g h => decodeRange_eq h) (fun _ => opcode_lt (by decide)) fun _ => rfl
  | call out function start len =>
    exact encoded_range (fun n g h => decodeRange_eq h) (fun _ => opcode_lt (by decide)) fun _ => rfl
  | record out tag start len =>
    exact encoded_typeRange (fun n m g h h' => decodeTagRange_eq h h') 
      (fun _ _ => opcode_lt (by decide)) fun _ _ => rfl
  | list out tag start len =>
    exact encoded_typeRange (fun n m g h h' => decodeTagRange_eq h h') 
      (fun _ _ => opcode_lt (by decide)) fun _ _ => rfl
  | cast out value tag =>
    exact encoded_type (fun n g h => decodeTag_eq h) (fun _ => opcode_lt (by decide)) fun _ => rfl
  | «is» out value tag negate =>
    cases negate with
    | false => exact encoded_type (fun n g h => decodeTag_eq h) (fun _ => opcode_lt (by decide)) fun _ => rfl
    | true => exact encoded_type (fun n g h => decodeTag_eq h) (fun _ => opcode_lt (by decide)) fun _ => rfl
  | literal out value =>
    refine ErrState.wp_seq (poolConstant_wp value) (fun _ _ h => h) fun n g h => ?_
    refine ⟨h.1, ?_, opcode_lt (by decide), rfl⟩
    change g.constants[n]?.map (Op.literal out) = _
    rw [h.2, Option.map_some]
  | variant out tag success payload =>
    cases tag <;> cases success <;> cases payload <;>
      first
      | exact Grown.refl f
      | exact encoded_word rfl (by decide)
  | unary out op value => cases op <;> exact encoded_word rfl (by decide)
  | binary out op lhs rhs =>
    refine encoded_word ?_ ?_
    · rw [decode?_operator (Nat.le_add_right_of_le (by decide))]
      exact decodeBinary_binary op out lhs rhs
    · have := op.code_lt
      omega
  | assignBinary out op lhs rhs =>
    refine encoded_word ?_ ?_
    · rw [decode?_operator (Nat.le_add_right_of_le (by decide))]
      exact decodeBinary_assignBinary op out lhs rhs
    · have := op.code_lt
      omega
  | clone out value mode => cases mode <;> exact encoded_word rfl (by decide)
  | _ => exact encoded_word rfl (by decide)

/-! ## Appending and patching -/

lemma Grown.operation (h : Grown f g) {pc : Nat} (hop : f.operation pc = .ok op) :
    g.operation pc = .ok op := by
  obtain ⟨i, hi, hop⟩ := Except.bind_eq_ok.1 hop
  refine Except.bind_eq_ok.2 ⟨i, by rw [h.code]; exact hi, ?_⟩
  exact okOr_eq_ok.2 (h.decode? (okOr_eq_ok.1 hop))

/-- Another instruction list over the same pools. -/
lemma operation_code {code : List Instruction} {pc : Nat} (hi : code[pc]? = some i)
    (hd : f.decode? i = some op) : operation { f with code } pc = .ok op :=
  Except.bind_eq_ok.2 ⟨i, okOr_eq_ok.2 hi, okOr_eq_ok.2 hd⟩

lemma Encoded.decode_charged (h : Encoded f op i g) (b : Bool) :
    g.decode { i with charged := b } = .ok op := by
  rw [Function.decode_charged]
  exact okOr_eq_ok.2 h.decode

/-- What `push` leaves behind when it succeeds. -/
structure Pushed (f : Function) (op : Op) (pc : Nat) (g : Function) : Prop where
  place : pc = f.code.length
  operation : g.operation pc = .ok op
  earlier : ∀ q op', f.operation q = .ok op' → g.operation q = .ok op'

lemma push_wp (f : Function) (op : Op) :
    ErrState.wp (push op) (Pushed f op) (fun _ g => Grown f g) f := by
  unfold push
  rw [ErrState.wp_get_bind]
  refine ErrState.wp_guardWith_bind (fun _ => .refl f) fun _ => ?_
  refine ErrState.wp_seq (encodes_encode f op) (fun _ _ h => h) fun i g h => ?_
  rw [ErrState.wp_update_bind, ErrState.wp_pure]
  refine ⟨rfl, operation_code (by rw [h.grown.code]; simp) h.decode, fun q op' hop => ?_⟩
  obtain ⟨j, hj, hop⟩ := Except.bind_eq_ok.1 (h.grown.operation hop)
  refine operation_code ?_ (okOr_eq_ok.1 hop)
  have hj := okOr_eq_ok.1 hj
  rw [List.getElem?_append_left (List.getElem?_eq_some_iff.1 hj).1]
  exact hj

/-- What `patch` leaves behind when it succeeds. -/
structure Patched (f : Function) (pc : Nat) (op : Op) (g : Function) : Prop where
  operation : g.operation pc = .ok op
  charged : g.isCharged pc = f.isCharged pc
  length : g.code.length = f.code.length
  others : ∀ q, q ≠ pc → g.code[q]? = f.code[q]?
  decoded : ∀ q op', q ≠ pc → f.operation q = .ok op' → g.operation q = .ok op'

lemma patch_wp (f : Function) (pc : Nat) (op : Op) :
    ErrState.wp (patch pc op) (fun _ g => Patched f pc op g) (fun _ g => Grown f g) f := by
  unfold patch
  refine ErrState.wp_read_bind (fun _ _ => .refl f) fun old hold => ?_
  have hold := okOr_eq_ok.1 hold
  refine ErrState.wp_seq (encodes_encode f op) (fun _ _ h => h) fun i g h => ?_
  rw [ErrState.wp_update]
  have hlt : pc < g.code.length := by
    rw [h.grown.code]
    exact (List.getElem?_eq_some_iff.1 hold).1
  refine ⟨operation_code (i := { i with charged := i.charged || old.charged }) ?_ ?_, ?_, ?_, ?_, ?_⟩
  · exact List.getElem?_set_self hlt
  · rw [decode?_charged]
    exact h.decode
  · unfold isCharged
    rw [List.getElem?_set_self hlt, hold, h.charged]
    rfl
  · rw [List.length_set, h.grown.code]
  · intro q hq
    rw [List.getElem?_set_ne (Ne.symm hq), h.grown.code]
  · intro q op' hq hop
    obtain ⟨j, hj, hop⟩ := Except.bind_eq_ok.1 (h.grown.operation hop)
    refine operation_code ?_ (okOr_eq_ok.1 hop)
    rw [List.getElem?_set_ne (Ne.symm hq)]
    exact okOr_eq_ok.1 hj

end Function

/-- The same operation with other targets. -/
inductive Op.Retargets : Op → Op → Prop
  | jump (target target' : Nat) : Retargets (.jump target) (.jump target')
  | branch (condition yes no yes' no' : Nat) :
      Retargets (.branch condition yes no) (.branch condition yes' no')
  | iterNext (out iterator done done' : Nat) :
      Retargets (.iterNext out iterator done) (.iterNext out iterator done')

namespace Function

variable {f g : Function} {i : Instruction} {op : Op}

/-- An operation with targets needs no pool. -/
lemma encode_retargets {op' : Op} (h : op.Retargets op') : ∃ i, encode op' f = (.ok i, f) := by
  cases h with
  | jump => exact ⟨_, rfl⟩
  | branch => exact ⟨_, rfl⟩
  | iterNext => exact ⟨_, rfl⟩

/-- Patching a target succeeds and touches no pool. -/
lemma patch_target {pc : Nat} {op' : Op} (hop : f.operation pc = .ok op) (h : op.Retargets op') :
    ∃ g, patch pc op' f = (.ok (), g) ∧ Patched f pc op' g ∧ g = { f with code := g.code } := by
  obtain ⟨old, hold, -⟩ := Except.bind_eq_ok.1 hop
  obtain ⟨i, hi⟩ := encode_retargets (f := f) h
  have hrun : patch pc op' f = (.ok (),
      { f with code := f.code.set pc { i with charged := i.charged || old.charged } }) := by
    unfold patch
    rw [ErrState.run_bind (m := read _) (a := old) (congrArg (·, f) hold),
      ErrState.run_bind hi]
    rfl
  exact ⟨_, hrun, (ErrState.wp_run hrun (patch_wp f pc op')).1 () rfl, rfl⟩

end Function

/-! ## Renaming the declared types -/

/-- A change of the declared types in a type. -/
def Ty.rename (rename : Nominal → Nominal) : Ty → Ty
  | .struct n => .struct (rename n)
  | t => t

/-- A change of the declared types in a constant. -/
def Value.rename (rename : Nominal → Nominal) : Value → Value
  | .type t => .type (t.rename rename)
  | v => v

/-- A change of the declared types in a decoded operation. -/
def Op.rename (rename : Nominal → Nominal) : Op → Op
  | .record out tag start n => .record out (tag.rename rename) start n
  | .list out tag start n => .list out (tag.rename rename) start n
  | .variant out tag success payload => .variant out (tag.rename rename) success payload
  | .cast out value tag => .cast out value (tag.rename rename)
  | .is out value tag negate => .is out value (tag.rename rename) negate
  | .literal out value => .literal out (value.rename rename)
  | op => op

/-- `VARIANT_TEST_BASE`. -/
def variantTestBase : Nat := 0x90000000

/-- `variant_test_type`: the type a staged variant test names. -/
def variantTestType (id : Nat) : Option Nat :=
  if id / 2 ^ 28 = 0xa then some (id % 2 ^ 28) else none

namespace Function

/-- One decoded instruction and its encoded one.  A staged variant test names its variant from now
on; that its type is a declared one was validated. -/
def renameEntry (rename : Nominal → Nominal) (variantId : Nominal → Nat) (types : List Ty)
    (c : CachedInstruction) (i : Instruction) : Option (CachedInstruction × Instruction) :=
  match c.op with
  | .call out callee start len =>
      match variantTestType callee with
      | none => some (c, i)
      | some index =>
          match types[index]? with
          | some (.struct n) =>
              let callee := variantTestBase ||| variantId n
              some ({ c with op := .call out callee start len }, { i with b := callee })
          | _ => none
  | op => some ({ c with op := op.rename rename }, i)

/-- `for_each_type_mut`, with a function that changes declared types only.  The cache has an entry
for every instruction. -/
def forEachTypeMut (rename : Nominal → Nominal) (variantId : Nominal → Nat) (f : Function) :
    Option Function := do
  let types := f.types.map (Ty.rename rename)
  let constants := f.constants.map (Value.rename rename)
  let entries ← (f.cached.zip f.code).mapM fun e => renameEntry rename variantId types e.1 e.2
  some { f with types, constants, cached := entries.map Prod.fst, code := entries.map Prod.snd }

/-! ## The decoded cache -/

variable {f g : Function} {i : Instruction} {op : Op} {rename : Nominal → Nominal}

/-- A cached instruction is the decoded one. -/
def Caches (f : Function) (c : CachedInstruction) (i : Instruction) : Prop :=
  f.decode? i = some c.op ∧ c.charged = i.charged

lemma mapM_caches {code : List Instruction} {cached : List CachedInstruction} :
    (code.mapM fun i => (f.decode i).map fun op => CachedInstruction.mk op i.charged) = .ok cached ↔
      List.Forall₂ (Caches f) cached code := by
  induction code generalizing cached with
  | nil =>
    rw [List.mapM_nil, List.forall₂_nil_right_iff]
    exact ⟨fun h => (Except.ok.inj h).symm, fun h => h ▸ rfl⟩
  | cons i code ih =>
    rw [List.mapM_cons, Except.bind_eq_ok]
    constructor
    · rintro ⟨c, hc, h⟩
      obtain ⟨cs, hcs, h⟩ := Except.bind_eq_ok.1 h
      obtain rfl := Except.ok.inj h
      refine .cons ?_ (ih.1 hcs)
      rcases hd : f.decode i with e | op
      · rw [hd] at hc
        cases hc
      · rw [hd] at hc
        obtain rfl := Except.ok.inj hc
        exact ⟨okOr_eq_ok.1 hd, rfl⟩
    · intro h
      cases h with
      | @cons c _ cs _ hc hcs =>
        have hd : f.decode i = .ok c.op := okOr_eq_ok.2 hc.1
        refine ⟨c, ?_, Except.bind_eq_ok.2 ⟨cs, ih.2 hcs, rfl⟩⟩
        rw [hd, ← hc.2]
        rfl

/-- A prepared cache is the decoded code, entry by entry. -/
lemma prepareCache_iff : f.prepareCache = .ok f ↔ List.Forall₂ (Caches f) f.cached f.code := by
  rw [← mapM_caches, prepareCache, Except.bind_eq_ok]
  constructor
  · rintro ⟨cached, hm, hf⟩
    rw [hm]
    exact congrArg (fun f => Except.ok f.cached) (Except.ok.inj hf)
  · intro h
    exact ⟨f.cached, h, rfl⟩

/-- The pools of `g` are those of `f` with their declared types changed. -/
structure Renamed (rename : Nominal → Nominal) (f g : Function) : Prop where
  types : g.types = f.types.map (Ty.rename rename)
  constants : g.constants = f.constants.map (Value.rename rename)
  ranges : g.ranges = f.ranges

lemma rename_operator {n a b c : Nat} (h : decodeBinary n a b c = some op) :
    op.rename rename = op := by
  unfold decodeBinary at h
  split_ifs at h
  · obtain ⟨_, -, rfl⟩ := Option.map_eq_some_iff.1 h
    rfl
  · obtain ⟨_, -, rfl⟩ := Option.map_eq_some_iff.1 h
    rfl

lemma decodeBinary_ne_call {n a b c out callee start len : Nat} :
    decodeBinary n a b c ≠ some (.call out callee start len) := by
  intro h
  unfold decodeBinary at h
  split_ifs at h
  · obtain ⟨_, -, h⟩ := Option.map_eq_some_iff.1 h
    cases h
  · obtain ⟨_, -, h⟩ := Option.map_eq_some_iff.1 h
    cases h

lemma rename_clone {a b c : Nat} (h : (if c = 0 then some (Op.clone a b .associated)
    else if c = 1 then some (Op.clone a b .global) else none) = some op) :
    op.rename rename = op := by
  split_ifs at h
  · cases h
    rfl
  · cases h
    rfl

section

variable (h : Renamed rename f g)

include h

lemma Renamed.decodeRange {n : Nat} {k : Nat → Nat → Op} (hk : ∀ a b, (k a b).rename rename = k a b)
    (hd : f.decodeRange n k = some op) : g.decodeRange n k = some (op.rename rename) := by
  obtain ⟨r, hr, rfl⟩ := Option.map_eq_some_iff.1 hd
  rw [Function.decodeRange, h.ranges, hr, Option.map_some, hk]

lemma Renamed.decodeTag {n : Nat} {k : Ty → Op} (hk : ∀ t, (k t).rename rename = k (t.rename rename))
    (hd : f.decodeTag n k = some op) : g.decodeTag n k = some (op.rename rename) := by
  obtain ⟨t, ht, rfl⟩ := Option.map_eq_some_iff.1 hd
  rw [Function.decodeTag, h.types, List.getElem?_map, ht, Option.map_some, Option.map_some, hk]

lemma Renamed.decodeTagRange {n m : Nat} {k : Ty → Nat → Nat → Op}
    (hk : ∀ t a b, (k t a b).rename rename = k (t.rename rename) a b)
    (hd : f.decodeTagRange n m k = some op) :
    g.decodeTagRange n m k = some (op.rename rename) := by
  obtain ⟨t, ht, hd⟩ := Option.bind_eq_some_iff.1 hd
  obtain ⟨r, hr, rfl⟩ := Option.map_eq_some_iff.1 hd
  rw [Function.decodeTagRange, h.types, h.ranges, List.getElem?_map, ht, hr, Option.map_some, hk]
  rfl

lemma Renamed.constant {n : Nat} {k : Value → Op}
    (hk : ∀ v, (k v).rename rename = k (v.rename rename))
    (hd : f.constants[n]?.map k = some op) : g.constants[n]?.map k = some (op.rename rename) := by
  obtain ⟨v, hv, rfl⟩ := Option.map_eq_some_iff.1 hd
  rw [h.constants, List.getElem?_map, hv, Option.map_some, Option.map_some, hk]

lemma Renamed.decode? (hd : f.decode? i = some op) : g.decode? i = some (op.rename rename) := by
  unfold Function.decode? at hd ⊢
  generalize i.opcode = n at hd ⊢
  split at hd <;> first
    | (cases hd; rfl)
    | exact h.decodeRange (fun _ _ => rfl) hd
    | exact h.decodeTag (fun _ => rfl) hd
    | exact h.decodeTagRange (fun _ _ _ => rfl) hd
    | exact h.constant (fun _ => rfl) hd
    | (rw [rename_clone hd]; exact hd)
    | (rw [rename_operator hd]; exact hd)

end

/-- A call names its callee in the second word. -/
lemma call_of_decode? {out callee start n : Nat} (hd : f.decode? i = some (.call out callee start n))
    (b : Nat) : f.decode? { i with b } = some (.call out b start n) := by
  unfold Function.decode? at hd ⊢
  dsimp only
  generalize i.opcode = opcode at hd ⊢
  split at hd <;> first
    | cases hd
    | exact absurd hd decodeBinary_ne_call
    | (obtain ⟨r, hr, hop⟩ := Option.map_eq_some_iff.1 hd; cases hop; done)
    | (obtain ⟨r, hr, hop⟩ := Option.map_eq_some_iff.1 hd; cases hop; exact decodeRange_eq hr)
    | (split_ifs at hd <;> cases hd)
    | (obtain ⟨t, ht, hd⟩ := Option.bind_eq_some_iff.1 hd
       obtain ⟨r, hr, hop⟩ := Option.map_eq_some_iff.1 hd
       cases hop)

/-- An entry stays decoded. -/
lemma Renamed.entry (h : Renamed rename f g) {variantId : Nominal → Nat} {c c' : CachedInstruction}
    {i i' : Instruction} (hc : f.Caches c i)
    (he : renameEntry rename variantId g.types c i = some (c', i')) : g.Caches c' i' := by
  obtain ⟨op, charged⟩ := c
  have hd := h.decode? hc.1
  unfold renameEntry at he
  split at he
  · rename_i out callee start n hop
    dsimp only at hop
    subst hop
    split at he
    · cases he
      exact ⟨hd, hc.2⟩
    · split at he
      · cases he
        exact ⟨call_of_decode? hd _, hc.2⟩
      · cases he
  · cases he
    exact ⟨hd, hc.2⟩

lemma Renamed.entries (h : Renamed rename f g) {variantId : Nominal → Nat}
    {cached : List CachedInstruction} {code : List Instruction}
    {entries : List (CachedInstruction × Instruction)}
    (hc : List.Forall₂ (Caches f) cached code)
    (he : (cached.zip code).mapM (fun e => renameEntry rename variantId g.types e.1 e.2)
      = some entries) :
    List.Forall₂ (Caches g) (entries.map Prod.fst) (entries.map Prod.snd) := by
  induction hc generalizing entries with
  | nil =>
    obtain rfl := Option.some.inj he
    exact .nil
  | cons hc _ ih =>
    rw [List.zip_cons_cons, List.mapM_cons] at he
    obtain ⟨e, hfirst, he⟩ := Option.bind_eq_some_iff.1 he
    obtain ⟨rest, hrest, he⟩ := Option.bind_eq_some_iff.1 he
    obtain rfl := Option.some.inj he
    exact .cons (h.entry hc hfirst) (ih hrest)

/-- After the types are renamed the cache is the decoded code. -/
lemma remap_cached {variantId : Nominal → Nat} (hf : f.prepareCache = .ok f)
    (h : f.forEachTypeMut rename variantId = some g) : g.prepareCache = .ok g := by
  obtain ⟨entries, he, h⟩ := Option.bind_eq_some_iff.1 h
  have hg : Renamed rename f g := by
    obtain rfl := Option.some.inj h
    exact ⟨rfl, rfl, rfl⟩
  obtain rfl := Option.some.inj h
  rw [prepareCache_iff] at hf ⊢
  exact hg.entries hf he

/-! ## What is encoded is what is decoded -/

/-- Decoding undoes encoding, a patched target is the only change, and the cache follows a change
of the types. -/
theorem decode_encode :
    (∀ (f g : Function) (op : Op) (i : Instruction), encode op f = (.ok i, g) →
      i.opcode < 2 ^ 31 ∧ ∀ b, g.decode { i with charged := b } = .ok op) ∧
    (∀ (f g : Function) (op : Op) (pc : Nat), push op f = (.ok pc, g) → Pushed f op pc g) ∧
    (∀ (f g : Function) (op : Op) (pc : Nat), patch pc op f = (.ok (), g) → Patched f pc op g) ∧
    (∀ (f : Function) (op op' : Op) (pc : Nat), f.operation pc = .ok op → op.Retargets op' →
      ∃ g, patch pc op' f = (.ok (), g) ∧ Patched f pc op' g ∧ g = { f with code := g.code }) ∧
    ∀ (f g : Function) (rename : Nominal → Nominal) (variantId : Nominal → Nat),
      f.prepareCache = .ok f → f.forEachTypeMut rename variantId = some g →
      g.prepareCache = .ok g := by
  refine ⟨fun f g op i h => ?_, fun f g op pc h => ?_, fun f g op pc h => ?_,
    fun f op op' pc hop h => patch_target hop h, fun f g rename variantId hf h => remap_cached hf h⟩
  · have he : Encoded f op i g := (ErrState.wp_run h (encodes_encode f op)).1 i rfl
    exact ⟨Nat.lt_trans he.opcode (by decide), he.decode_charged⟩
  · exact (ErrState.wp_run h (push_wp f op)).1 pc rfl
  · exact (ErrState.wp_run h (patch_wp f pc op)).1 () rfl

/-- A test for a staged type, and a record of it. -/
def recordSample : Function where
  cached := [⟨.is 1 0 (.struct ⟨2⟩) true, true⟩, ⟨.call 0 0xa0000000 0 1, false⟩]
  constants := []
  types := [.struct ⟨2⟩]
  ranges := [(0, 1)]
  strings := []
  code := [⟨9, true, 1, 0, 0⟩, ⟨12, false, 0, 0xa0000000, 0⟩]
  args := [0]
  slots := 2
  parameters := 1

theorem decode_encode_record :
    (∃ i g, encode (.call 7 8 2 1) recordSample = (.ok i, g) ∧
      g.decode { i with charged := true } = .ok (.call 7 8 2 1)) ∧
    (∃ g, patch 0 (.jump 1) recordSample = (.ok (), g) ∧ g.isCharged 0 = true) ∧
    ∃ g, recordSample.forEachTypeMut (fun _ => ⟨5⟩) (fun n => n.id) = some g ∧
      g.prepareCache = .ok g := by
  refine ⟨⟨_, _, rfl, (decode_encode.1 recordSample _ _ _ rfl).2 true⟩, ⟨_, rfl, ?_⟩, _, rfl, ?_⟩
  · exact (decode_encode.2.2.1 recordSample _ (.jump 1) 0 rfl).charged
  · exact decode_encode.2.2.2.2 recordSample _ _ _ rfl rfl

end Function

end Rnx
