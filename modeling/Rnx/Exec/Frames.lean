import Rnx.Exec.Executor

/-!
# Frames of validated code

What one instruction of the executor does to its frames (`Moves`), and what follows for every run of
validated code: the windows of the frames lie one behind the other and fill the stack, every frame
stands at an instruction of its function, and no instruction misses what it names.  Each frame is an
activation of its function, the suspended ones up to the value their call returns.
-/

namespace Rnx

/-- A slot that is there is read. -/
lemma okOr_bind {ε α β : Type} {o : Option α} {e : ε} {a : α} {k : α → Except ε β} (h : o = some a) :
    okOr o e >>= k = k a := by
  rw [h]
  rfl

namespace Function

/-- The same function but for what is charged and cached. -/
def SameButCode (f g : Function) : Prop :=
  ∃ code cached, g = { f with code := code, cached := cached }

variable {f g k : Function}

lemma SameButCode.refl (f : Function) : SameButCode f f := ⟨f.code, f.cached, rfl⟩

lemma SameButCode.trans (h : SameButCode f g) (h' : SameButCode g k) : SameButCode f k := by
  obtain ⟨code, cached, rfl⟩ := h
  obtain ⟨code', cached', rfl⟩ := h'
  exact ⟨code', cached', rfl⟩

lemma sameButCode_charge (f : Function) (pc : Nat) : SameButCode f (f.charge pc) :=
  ⟨_, f.cached, rfl⟩

lemma sameButCode_chargeIf (f : Function) (pc : Nat) (c : Prop) [Decidable c] :
    SameButCode f (if c then f.charge pc else f) := by
  split
  · exact sameButCode_charge f pc
  · exact .refl f

lemma foldl_charge_same (targets : List Nat) (pc : Nat) (f : Function) :
    SameButCode f (targets.foldl (fun f target => if target ≤ pc then f.charge target else f) f) := by
  induction targets generalizing f with
  | nil => exact .refl f
  | cons target targets ih =>
    rw [List.foldl_cons]
    exact (sameButCode_chargeIf f target _).trans (ih _)

lemma chargeTargets_same {pc : Nat} (h : f.chargeTargets pc = .ok g) : SameButCode f g := by
  obtain ⟨targets, -, h⟩ := Except.bind_eq_ok.1 h
  obtain rfl := Except.ok.inj h
  exact foldl_charge_same targets pc f

lemma walk_same {w w' : Walk} {pc : Nat} (h : w.step pc = .ok w') : SameButCode w.f w'.f := by
  obtain ⟨targets, -, h⟩ := Except.bind_eq_ok.1 h
  obtain ⟨gap, -, h⟩ := Except.bind_eq_ok.1 h
  obtain rfl := Except.ok.inj h
  exact sameButCode_chargeIf w.f pc _

/-- A fold that keeps the function keeps it to the end. -/
lemma foldlM_same {σ : Type} (read : σ → Function) {step : σ → Nat → Except Error σ}
    (hstep : ∀ s pc s', step s pc = .ok s' → SameButCode (read s) (read s')) {pcs : List Nat}
    {s s' : σ} (h : pcs.foldlM step s = .ok s') : SameButCode (read s) (read s') := by
  induction pcs generalizing s with
  | nil =>
    obtain rfl := Except.ok.inj h
    exact .refl _
  | cons pc pcs ih =>
    rw [List.foldlM_cons] at h
    obtain ⟨mid, hmid, h⟩ := Except.bind_eq_ok.1 h
    exact (hstep s pc mid hmid).trans (ih h)

lemma finishValidated_same (h : f.finishValidated = .ok g) : SameButCode f g := by
  obtain ⟨mid, hmid, hcache⟩ := Except.bind_eq_ok.1 h
  obtain ⟨_, -, hmid⟩ := Except.bind_eq_ok.1 hmid
  obtain ⟨charged, hcharged, hmid⟩ := Except.bind_eq_ok.1 hmid
  obtain ⟨w, hw, hmid⟩ := Except.bind_eq_ok.1 hmid
  obtain rfl := Except.ok.inj hmid
  obtain ⟨cached, -, hg⟩ := Except.bind_eq_ok.1 hcache
  obtain rfl := Except.ok.inj hg
  have hfirst := foldlM_same id (fun s pc s' hs => chargeTargets_same hs) hcharged
  have hwalk := foldlM_same Walk.f (fun s pc s' hs => walk_same hs) hw
  exact (((sameButCode_charge f 0).trans hfirst).trans hwalk).trans ⟨w.f.code, cached, rfl⟩

lemma Charged.nonempty (h : f.Charged) : 0 < f.code.length := by
  by_contra hnot
  have hfirst := h.first
  unfold isCharged at hfirst
  rw [List.getElem?_eq_none (by omega)] at hfirst
  cases hfirst

end Function

namespace Exec

/-! ## Sealed code -/

/-- `FIRST_INTRINSIC_ID`. -/
def firstIntrinsicId : Nat := 0x80000000

/-- The functions of a setting are the sealed ones of a builder, whose frames hold their
parameters (`Function::new`), and whose ids lie before the intrinsics. -/
structure Setting.Sealed (S : Setting) (env : Callees) : Prop where
  few : env.functions.length ≤ firstIntrinsicId
  functions : List.Forall₂ (fun f g => f.sealed env = .ok g) env.functions S.functions
  sized : ∀ f ∈ env.functions, f.parameters ≤ f.slots

/-- What the executor relies on in a function. -/
structure Setting.Runs (env : Callees) (g : Function) : Prop where
  cache : g.prepareCache = .ok g
  valid : g.Valid env
  charged : g.Charged
  sized : g.parameters ≤ g.slots

lemma Setting.Sealed.runs {S : Setting} {env : Callees} (h : S.Sealed env) {k : Nat} {g : Function}
    (hg : S.functions[k]? = some g) :
    Setting.Runs env g ∧ ∃ f, env.functions[k]? = some f ∧ f.parameters = g.parameters := by
  obtain ⟨hk, hget⟩ := List.getElem?_eq_some_iff.1 hg
  have hlength := h.functions.length_eq
  have hk' : k < env.functions.length := by omega
  have hpair := (List.forall₂_iff_get.1 h.functions).2 k hk' hk
  simp only [List.get_eq_getElem] at hpair
  rw [hget] at hpair
  obtain ⟨_, hvalid, hfinish⟩ := Except.bind_eq_ok.1 hpair
  have hsame := Function.finishValidated_same hfinish
  obtain ⟨mid, hmid, hcache⟩ := Except.bind_eq_ok.1 hfinish
  obtain ⟨hr, hprepared⟩ := Function.prepareCache_recharged hcache
  have hends := Function.placeCharges_ends env.functions[k]
  rw [hmid] at hends
  have hsized := h.sized _ (List.getElem_mem hk')
  have hfit := Function.validateOperands_valid hvalid
  obtain ⟨code, cached, heq⟩ := hsame
  refine ⟨⟨hprepared, hfit.recharged (hends.1.trans hr) ?_ ?_ ?_, hr.keeps hends.2, ?_⟩,
    env.functions[k], List.getElem?_eq_getElem hk', ?_⟩
  · rw [heq]
  · rw [heq]
  · rw [heq]
  · rw [heq]
    exact hsized
  · rw [heq]

/-! ## One instruction -/

namespace Activation

variable {F : FloatOps} {C : CastOps} {a : Activation} {reply : Reply} {op : Op} {out : Nat}
  {v : Value}

lemma out_of_write {o : Option Value} {out' : Nat}
    (h : o.map (Effect.write out') = some (.write out v)) : out = out' := by
  obtain ⟨v', -, heq⟩ := Option.map_eq_some_iff.1 h
  exact (Effect.write.inj heq).1.symm

/-- What an instruction writes, it names. -/
lemma effect_named (h : a.effect F C reply op = some (.write out v)) : out ∈ op.named := by
  cases op with
  | template | stringFrom | variant | tryValue | callValue | range | iterStart | string | clone
  | assignBinary | copy | unary | binary | cast | is | call | record | field | fieldGetMut | list
  | tupleFieldGetMut | tupleField | get | len =>
    rw [out_of_write h]
    exact List.mem_cons_self
  | print | fieldSetMut | setField | tupleFieldSetMut | setTupleField | set | push | drop =>
    obtain ⟨_, -, heq⟩ := Option.map_eq_some_iff.1 h
    cases heq
  | panic | returnValue => cases h
  | literal | release =>
    obtain ⟨rfl, rfl⟩ := Effect.write.inj (Option.some.inj h)
    exact List.mem_cons_self
  | jump => cases Option.some.inj h
  | branch condition yes no =>
    simp only [Activation.effect] at h
    split at h
    · cases Option.some.inj h
    · cases h
  | iterNext out' iterator done =>
    simp only [Activation.effect] at h
    split at h
    · obtain ⟨rfl, rfl⟩ := Effect.write.inj (Option.some.inj h)
      exact List.mem_cons_self
    · cases Option.some.inj h
    · cases h

end Activation

namespace Executor

/-- The activation of the innermost frame. -/
def activation (e : Executor) (frame : Frame) : Activation := ⟨frame.pc, e.window frame⟩

/-- What an instruction does to the frames, of which `frame` is the innermost. -/
inductive Moves (S : Setting) (e : Executor) (frame : Frame) (frames : List Frame) (op : Op) :
    Executor → Prop
  | inside {reply : Reply} {effect : Effect} {a : Activation}
      (heffect : (e.activation frame).effect S.floats S.casts reply op = some effect)
      (happly : (e.activation frame).apply effect = some a) :
      Moves S e frame frames op { e with
        frames := { frame with pc := a.pc } :: frames
        slots := e.slots.take frame.base ++ a.slots }
  | calls {g : Function} {callee out : Nat} {args : List Value}
      (hg : S.functions[callee]? = some g) (hargs : args.length = g.parameters)
      (hout : out < (e.window frame).length)
      (hresume : ∀ v, (e.activation frame).effect S.floats S.casts (.value v) op
        = some (.write out v)) :
      Moves S e frame frames op { e with
        frames := ⟨callee, 0, e.slots.length, some (frame.base + out)⟩ ::
          { frame with pc := frame.pc + 1 } :: frames
        slots := e.slots ++ (args ++ List.replicate (g.slots - args.length) .unit) }
  | returns {o : Nat} {v : Value} (hout : frame.out = some o) :
      Moves S e frame frames op { e with
        frames := frames
        slots := (e.slots.take frame.base).set o v }

variable {S : Setting} {env : Callees} {e e' : Executor} {frame : Frame} {frames : List Frame}
  {f g : Function} {op : Op} {answer : Answer} {out callee start len : Nat} {args : List Value}
  {ns : List Nat}

lemma finds_spec (h : e.finds frame f op = true) :
    ∃ u, f.uses op = some u ∧ ∀ n ∈ u.slots, n < (e.window frame).length := by
  unfold finds at h
  split at h
  · cases h
  · rename_i u hu
    rw [Bool.and_eq_true, Bool.and_eq_true, List.all_eq_true] at h
    exact ⟨u, hu, fun n hn => of_decide_eq_true (h.1.1 n hn)⟩

lemma named_of_uses {u : Uses} (h : f.uses op = some u) : ∀ n ∈ op.named, n ∈ u.slots := by
  intro n hn
  cases op with
  | template | record | callValue | call | list =>
    obtain ⟨args, -, rfl⟩ := Option.map_eq_some_iff.1 h
    exact List.mem_append_left _ hn
  | string | field | fieldGetMut | setField | fieldSetMut | print | tupleFieldGetMut
  | tupleFieldSetMut | tupleField | setTupleField | variant | tryValue | range | iterStart
  | iterNext | stringFrom | panic | clone | assignBinary | literal | copy | release | unary | binary
  | cast | is | jump | branch | returnValue | get | set | len | push | drop =>
    obtain rfl := Option.some.inj h
    exact hn

lemma finds_named (h : e.finds frame f op = true) {n : Nat} (hn : n ∈ op.named) :
    n < (e.window frame).length := by
  obtain ⟨u, hu, hall⟩ := finds_spec h
  exact hall n (named_of_uses hu n hn)

/-- The arguments of a call are as many as it says. -/
lemma length_values {slots : List Value} (hargs : f.argList start len = some ns)
    (hall : ∀ n ∈ ns, n < slots.length) :
    (((f.argList start len).getD []).filterMap fun n => slots[n]?).length = len := by
  rw [hargs, Option.getD_some, List.filterMap_length_eq_length.2]
  · unfold Function.argList at hargs
    split_ifs at hargs with hle
    obtain rfl := Option.some.inj hargs
    rw [List.length_take, List.length_drop]
    omega
  · intro n hn
    rw [List.getElem?_eq_getElem (hall n hn)]
    rfl

lemma call_moves (hframes : e.frames = frame :: frames) (hg : S.functions[callee]? = some g)
    (hargs : args.length = g.parameters) (hsized : g.parameters ≤ g.slots)
    (hout : out < (e.window frame).length)
    (hresume : ∀ v, (e.activation frame).effect S.floats S.casts (.value v) op
      = some (.write out v)) :
    (e.call S frame g callee out args).Ends (Moves S e frame frames op) (· ≠ .invalid) := by
  unfold call commit pushCall
  rw [hframes]
  simp only
  split_ifs with hroom hfit
  · exact Stop.noConfusion
  · omega
  · exact .calls hg hargs hout hresume

lemma resume_moves (reply : Reply) {effect : Effect} (hframes : e.frames = frame :: frames)
    (hbase : frame.base ≤ e.slots.length)
    (heffect : (e.activation frame).effect S.floats S.casts reply op = some effect)
    (hnamed : ∀ n ∈ op.named, n < (e.window frame).length) :
    (e.resume frame effect).Ends (Moves S e frame frames op) (· ≠ .invalid) := by
  have hkeep : e.slots.take frame.base ++ e.slots.drop frame.base = e.slots :=
    List.take_append_drop ..
  have hsame : ∀ pc, (e.activation frame).apply effect
      = some { e.activation frame with pc := pc } →
      Moves S e frame frames op (e.commit pc) := by
    intro pc happly
    have hmoves : Moves S e frame frames op _ := .inside heffect happly
    unfold commit
    rw [hframes]
    simp only [activation, window, hkeep] at hmoves
    exact hmoves
  cases effect with
  | write out v =>
    have hlt := hnamed out (Activation.effect_named heffect)
    have happly : (e.activation frame).apply (.write out v)
        = some ⟨frame.pc + 1, (e.window frame).set out v⟩ := if_pos hlt
    have hmoves : Moves S e frame frames op _ := .inside heffect happly
    have hlength : (e.window frame).length = e.slots.length - frame.base := List.length_drop
    have hset : e.slots.set (frame.base + out) v
        = e.slots.take frame.base ++ (e.window frame).set out v := by
      conv_lhs => rw [← hkeep]
      rw [List.set_append_right _ _ (by rw [List.length_take]; omega), List.length_take,
        Nat.min_eq_left hbase, Nat.add_sub_cancel_left]
      rfl
    unfold resume commit put
    rw [hframes]
    simp only
    rw [if_pos (by omega), hset]
    exact hmoves
  | goto pc => exact hsame pc rfl
  | next => exact hsame (frame.pc + 1) rfl

lemma return_moves {v : Value} (hframes : e.frames = frame :: frames)
    (hbase : frame.base ≤ e.slots.length) (hreturn : ∀ o, frame.out = some o → o < frame.base) :
    (e.leave >>= fun e => e.deliver frame.out v).Ends (Moves S e frame frames op)
      (· ≠ .invalid) := by
  have hleave : e.leave = .ok { e with frames := frames, slots := e.slots.take frame.base } := by
    unfold leave
    rw [hframes]
  rw [hleave]
  show (deliver _ frame.out v).Ends _ _
  rcases hout : frame.out with _ | o
  · exact Stop.noConfusion
  · unfold deliver put
    have hlt := hreturn o hout
    simp only [List.length_take]
    rw [if_pos (by omega)]
    exact Moves.returns hout

/-- One instruction that finds what it names moves the frames, or ends the invocation, but not as
invalid code. -/
lemma perform_moves (hS : S.Sealed env) (hframes : e.frames = frame :: frames)
    (hbase : frame.base ≤ e.slots.length) (hreturn : ∀ o, frame.out = some o → o < frame.base)
    (hfinds : e.finds frame f op = true) (hanswers : Function.Answers env op) :
    (e.perform S frame f op answer).Ends (Moves S e frame frames op) (· ≠ .invalid) := by
  have hnamed := fun n (hn : n ∈ op.named) => finds_named hfinds hn
  have hread : ∀ n ∈ op.named, ∃ v, (e.window frame)[n]? = some v :=
    fun n hn => ⟨_, List.getElem?_eq_getElem (hnamed n hn)⟩
  have hmissed : Except.Ends (.error Stop.failed) (Moves S e frame frames op) (· ≠ .invalid) :=
    Stop.noConfusion
  obtain ⟨u, hu, hslots⟩ := finds_spec hfinds
  cases op with
  | panic value => exact Stop.noConfusion
  | returnValue value =>
    obtain ⟨v, hv⟩ := hread value List.mem_cons_self
    unfold perform
    simp only
    rw [okOr_bind hv]
    exact return_moves hframes hbase hreturn
  | tryValue out value =>
    obtain ⟨v, hv⟩ := hread value (List.mem_cons_of_mem _ List.mem_cons_self)
    unfold perform
    simp only
    rw [okOr_bind hv]
    split
    · rename_i payload
      refine resume_moves (.value payload) hframes hbase ?_ hnamed
      simp [Activation.effect, Activation.handed, Activation.ask, activation,
        hnamed value (List.mem_cons_of_mem _ List.mem_cons_self)]
    · exact return_moves hframes hbase hreturn
    · exact hmissed
  | call out callee start len =>
    obtain ⟨ns, hns, rfl⟩ := Option.map_eq_some_iff.1 hu
    have hout := hnamed out List.mem_cons_self
    have hresume : ∀ v, (e.activation frame).effect S.floats S.casts (.value v)
        (.call out callee start len) = some (.write out v) := by
      intro v
      simp [Activation.effect, Activation.handed, Activation.ask]
    unfold perform
    simp only
    split
    · rename_i g hg
      obtain ⟨hruns, f', hf', hparameters⟩ := hS.runs hg
      have hk := (List.getElem?_eq_some_iff.1 hf').1
      have hfew := hS.few
      unfold firstIntrinsicId at hfew
      have htype : variantTestType callee = none := if_neg (by omega)
      have hid : variantTestId callee = none := if_neg (by omega)
      have hlen := hanswers out callee start len f' rfl htype hid hf'
      refine call_moves hframes hg ?_ hruns.sized hout hresume
      rw [length_values hns fun n hn => hslots n (List.mem_append_right _ hn), hlen, hparameters]
    · rcases answer with ⟨_ | _ | _⟩ | _ | _ | _
      · exact resume_moves _ hframes hbase (hresume _) hnamed
      all_goals exact hmissed
  | callValue out value start len =>
    obtain ⟨ns, hns, rfl⟩ := Option.map_eq_some_iff.1 hu
    have hout := hnamed out List.mem_cons_self
    have hvalue := hnamed value (List.mem_cons_of_mem _ List.mem_cons_self)
    have hlength : (((f.argList start len).getD []).filterMap fun n =>
        (e.window frame)[n]?).length = len :=
      length_values hns fun n hn => hslots n (List.mem_append_right _ hn)
    have hresume : ∀ v, (e.activation frame).effect S.floats S.casts (.value v)
        (.callValue out value start len) = some (.write out v) := by
      intro v
      simp [Activation.effect, Activation.handed, Activation.ask, activation, hvalue]
    obtain ⟨called, hcalled⟩ := hread value (List.mem_cons_of_mem _ List.mem_cons_self)
    unfold perform
    simp only
    rw [okOr_bind hcalled]
    split
    · split
      · rename_i g hg
        split
        · rename_i howner
          exact call_moves hframes hg (hlength.trans howner.2.symm) (hS.runs hg).1.sized hout hresume
        · exact hmissed
      · exact hmissed
    · split
      · rename_i g hg
        split
        · rename_i howner
          refine call_moves hframes hg ?_ (hS.runs hg).1.sized hout hresume
          rw [List.length_append, hlength, howner.2]
        · exact hmissed
      · exact hmissed
    · exact hmissed
  | template | stringFrom | variant | range | iterStart | string | clone | assignBinary | copy
  | unary | binary | cast | is | record | field | fieldGetMut | list | tupleFieldGetMut | tupleField
  | get | len | print | fieldSetMut | setField | tupleFieldSetMut | setTupleField | set | push | drop
  | literal | release | jump | branch | iterNext =>
    unfold perform
    simp only
    split
    · split
      · rename_i heffect
        exact resume_moves _ hframes hbase heffect hnamed
      · exact hmissed
    · exact hmissed

/-! ## Every run -/

/-- The frames, from the innermost on, and the slots they fill: every frame stands at an instruction
of its function, its window ends the stack that is left, and its result goes to a slot below it. -/
inductive Stack (S : Setting) : List Frame → Nat → Prop
  | nil : Stack S [] 0
  | cons {frame : Frame} {frames : List Frame} {n : Nat} {f : Function}
      (hf : S.functions[frame.function]? = some f) (hpc : frame.pc < f.code.length)
      (hn : n = frame.base + f.slots) (hout : ∀ o, frame.out = some o → o < frame.base)
      (hrest : Stack S frames frame.base) : Stack S (frame :: frames) n

lemma Stack.base_eq {n : Nat} (h : Stack S [] n) : n = 0 := by
  cases h
  rfl

/-- What every instruction keeps: there is a frame, and the frames fill the stack. -/
structure Inv (S : Setting) (e : Executor) : Prop where
  frames : e.frames ≠ []
  stack : Stack S e.frames e.slots.length

lemma charge_eq_ok {e₁ : Executor} {charged : Bool} (h : e.charge charged = .ok e₁) :
    e₁ = { e with fuel := e.fuel - charged.toNat } ∧ charged.toNat ≤ e.fuel := by
  unfold charge at h
  split_ifs at h with hc hcancel hfuel
  · obtain rfl := Except.ok.inj h
    rw [hc]
    exact ⟨rfl, Nat.zero_le _⟩
  · obtain rfl := Except.ok.inj h
    rw [Bool.not_eq_false] at hc
    rw [hc]
    exact ⟨rfl, Nat.pos_of_ne_zero hfuel⟩

lemma charge_ends (e : Executor) (charged : Bool) :
    (e.charge charged).Ends (fun e₁ => e₁ = { e with fuel := e.fuel - charged.toNat } ∧
      charged.toNat ≤ e.fuel) (· ≠ .invalid) := by
  rcases h : e.charge charged with stop | e₁
  · unfold charge at h
    split_ifs at h
    · cases h
      exact Stop.noConfusion
    · cases h
      exact Stop.noConfusion
  · exact charge_eq_ok h

/-- What an instruction of validated code does: it is charged where it should be and moves the
frames. -/
structure Stepped (S : Setting) (env : Callees) (e e' : Executor) (frame : Frame)
    (frames : List Frame) (f : Function) (op : Op) : Prop where
  top : e.frames = frame :: frames
  function : S.functions[frame.function]? = some f
  operation : f.operation frame.pc = .ok op
  fuel : (f.isCharged frame.pc).toNat ≤ e.fuel
  moves : Moves S { e with fuel := e.fuel - (f.isCharged frame.pc).toNat } frame frames op e'

lemma finds_of_fits (hfits : f.Fits op) (hn : (e.window frame).length = f.slots) :
    e.finds frame f op = true := by
  obtain ⟨u, hu, hslots, hstrings, hspecs⟩ := hfits
  unfold finds
  rw [hu]
  simp only
  rw [Bool.and_eq_true, Bool.and_eq_true, List.all_eq_true, List.all_eq_true, List.all_eq_true]
  refine ⟨⟨fun n hn' => decide_eq_true (hn ▸ hslots n hn'), fun k hk =>
    decide_eq_true (hstrings k hk)⟩, fun d hd => ?_⟩
  obtain ⟨r, hr⟩ := hspecs d hd
  rw [hr]
  rfl

lemma cached_at (hcache : f.prepareCache = .ok f) {pc : Nat} (hop : f.operation pc = .ok op) :
    f.cached[pc]? = some ⟨op, f.isCharged pc⟩ := by
  obtain ⟨i, hi, hdecode⟩ := Except.bind_eq_ok.1 hop
  have hi := okOr_eq_ok.1 hi
  obtain ⟨hlength, hat⟩ := Function.cached_of_prepareCache hcache
  obtain ⟨op', hop', hcached⟩ := hat pc i hi
  obtain rfl := Except.ok.inj (hdecode.symm.trans hop')
  rw [hcached]
  unfold Function.isCharged
  rw [hi]
  rfl

lemma step_stepped (hS : S.Sealed env) (h : Inv S e) (answer : Answer) :
    (e.step S answer).Ends (fun e' => ∃ frame frames f op, Stepped S env e e' frame frames f op)
      (· ≠ .invalid) := by
  obtain ⟨hne, hstack⟩ := h
  rcases hframes : e.frames with _ | ⟨frame, frames⟩
  · exact absurd hframes hne
  rw [hframes] at hstack
  cases hstack with
  | cons hf hpc hn hout hrest =>
    rename_i f
    obtain ⟨hruns, -⟩ := hS.runs hf
    obtain ⟨op, hop, hfits, hanswers⟩ := hruns.valid.operation frame.pc hpc
    unfold step
    rw [okOr_bind (by rw [hframes]; rfl), okOr_bind hf, okOr_bind (cached_at hruns.cache hop)]
    refine (charge_ends e _).bind fun e₁ he₁ => ?_
    obtain ⟨rfl, hfuel⟩ := he₁
    have hwindow : (window { e with fuel := e.fuel - (f.isCharged frame.pc).toNat } frame).length
        = f.slots := by
      unfold window
      rw [List.length_drop]
      simp only
      omega
    rw [if_pos (finds_of_fits hfits hwindow)]
    have hmoves : (perform S { e with fuel := e.fuel - (f.isCharged frame.pc).toNat } frame f op
        answer).Ends (Moves S { e with fuel := e.fuel - (f.isCharged frame.pc).toNat } frame frames
          op) (· ≠ .invalid) :=
      perform_moves hS hframes (by simp only; omega) hout (finds_of_fits hfits hwindow) hanswers
    exact hmoves.mono (fun e' he' => ⟨frame, frames, f, op, hframes, hf, hop, hfuel, he'⟩)
      fun _ h => h

/-- The activation of the innermost frame follows an edge of its function. -/
lemma Stepped.edge {reply : Reply} {effect : Effect} (hruns : Setting.Runs env f)
    (hop : f.operation frame.pc = .ok op) (hpc : frame.pc < f.code.length)
    (heffect : (e.activation frame).effect S.floats S.casts reply op = some effect) :
    f.Edge frame.pc (effect.target frame.pc) := by
  obtain ⟨targets, ht⟩ := hruns.valid.targets frame.pc hpc
  refine ⟨targets, ht, ?_⟩
  obtain ⟨op', hop', ht⟩ := Except.bind_eq_ok.1 ht
  obtain rfl := Except.ok.inj (hop.symm.trans hop')
  obtain ⟨_, -, ht⟩ := Except.bind_eq_ok.1 ht
  obtain rfl := Except.ok.inj ht
  exact Activation.effect_targets heffect

lemma length_apply {a a' : Activation} {effect : Effect} (h : a.apply effect = some a') :
    a'.slots.length = a.slots.length := by
  cases effect with
  | write out v =>
    simp only [Activation.apply] at h
    split_ifs at h
    obtain rfl := Option.some.inj h
    exact List.length_set
  | goto pc =>
    obtain rfl := Option.some.inj h
    rfl
  | next =>
    obtain rfl := Option.some.inj h
    rfl

/-- An instruction keeps the frames in place. -/
lemma Stepped.inv (hS : S.Sealed env) (h : Inv S e) (hstep : Stepped S env e e' frame frames f op) :
    Inv S e' := by
  obtain ⟨hframes, hf, hop, -, hmoves⟩ := hstep
  obtain ⟨-, hstack⟩ := h
  rw [hframes] at hstack
  cases hstack with
  | cons hf' hpc hn hout hrest =>
    obtain rfl := Option.some.inj (hf.symm.trans hf')
    obtain ⟨hruns, -⟩ := hS.runs hf
    cases hmoves with
    | inside heffect happly =>
      rename_i reply effect a
      have hedge := Stepped.edge hruns hop hpc heffect
      refine ⟨List.cons_ne_nil _ _, .cons hf ?_ ?_ hout hrest⟩
      · rw [Activation.apply_pc happly]
        exact Function.edge_lt hedge
      · rw [List.length_append, List.length_take, length_apply happly]
        simp only [activation, window, List.length_drop]
        omega
    | calls hg hargs hlt hresume =>
      rename_i g callee out args
      obtain ⟨hcallee, -⟩ := hS.runs hg
      have hedge := Stepped.edge hruns hop hpc (hresume .unit)
      have hcode := hcallee.charged.nonempty
      have hsized := hcallee.sized
      unfold window at hlt
      rw [List.length_drop] at hlt
      simp only at hlt
      refine ⟨List.cons_ne_nil _ _, .cons hg hcode ?_ ?_ (.cons hf ?_ hn hout hrest)⟩
      · rw [List.length_append, List.length_append, List.length_replicate]
        simp only
        omega
      · intro o ho
        obtain rfl := Option.some.inj ho
        simp only
        omega
      · exact Function.edge_lt hedge
    | returns ho =>
      rename_i o v
      have hlt := hout o ho
      have hlength : ((e.slots.take frame.base).set o v).length = frame.base := by
        rw [List.length_set, List.length_take]
        omega
      refine ⟨fun hnil => ?_, ?_⟩
      · simp only at hnil
        subst hnil
        have hbase := hrest.base_eq
        omega
      · simp only
        rw [hlength]
        exact hrest

/-- The frame an invocation starts with. -/
lemma enter_eq {fuel function : Nat}
    (h : (Executor.mk [] [] fuel false).enter S function args = .ok e) :
    ∃ g, S.functions[function]? = some g ∧ args.length = g.parameters ∧ args.length ≤ g.slots ∧
      e = ⟨[⟨function, 0, 0, none⟩], args ++ List.replicate (g.slots - args.length) .unit, fuel,
        false⟩ := by
  obtain ⟨g, hg, h⟩ := Except.bind_eq_ok.1 h
  obtain ⟨_, hargs, h⟩ := Except.bind_eq_ok.1 h
  unfold pushCall at h
  split_ifs at h with hroom hfit
  exact ⟨g, okOr_eq_ok.1 hg, ensure_eq_ok.1 hargs, Nat.le_of_not_lt hfit, (Except.ok.inj h).symm⟩

lemma enter_inv (hS : S.Sealed env) {fuel function : Nat}
    (h : (Executor.mk [] [] fuel false).enter S function args = .ok e) : Inv S e := by
  obtain ⟨g, hg, hargs, hfit, rfl⟩ := enter_eq h
  obtain ⟨hruns, -⟩ := hS.runs hg
  refine ⟨List.cons_ne_nil _ _, .cons hg hruns.charged.nonempty ?_ (fun o ho => by cases ho) .nil⟩
  rw [List.length_append, List.length_replicate]
  simp only
  omega

lemma next_instruction {fuel : Nat} {answer : Answer} {charged : Option Bool}
    (h : (invocation S fuel).next e (.instruction answer) = some (e', charged)) :
    e.step S answer = .ok e' ∧ charged = some (decide (e'.fuel ≠ e.fuel)) := by
  simp only [invocation] at h
  split at h
  · rename_i e₁ hstep
    obtain ⟨rfl, rfl⟩ := Prod.mk.inj (Option.some.inj h)
    exact ⟨hstep, rfl⟩
  · cases h

/-- Every executor an invocation reaches has its frames in place. -/
lemma reachable_inv (hS : S.Sealed env) {fuel : Nat} (h : (invocation S fuel).Reachable e) :
    Inv S e := by
  refine h.invariant (fun e he => ?_) fun e input e' charged he hnext => ?_
  · obtain ⟨function, args, henter⟩ := he
    exact enter_inv hS henter
  · cases input with
    | cancel =>
      obtain ⟨rfl, -⟩ := Prod.mk.inj (Option.some.inj hnext)
      exact ⟨he.frames, he.stack⟩
    | instruction answer =>
      obtain ⟨hstep, -⟩ := next_instruction hnext
      have hends := step_stepped hS he answer
      rw [hstep] at hends
      obtain ⟨frame, frames, f, op, hstepped⟩ := hends
      exact hstepped.inv hS he

/-- A function that calls another and doubles what it returns. -/
def double : Function where
  cached := []
  constants := []
  types := []
  ranges := [(0, 0)]
  strings := []
  code := [⟨12, false, 0, 1, 0⟩, ⟨100, false, 1, 0, 0⟩, ⟨13, false, 1, 0, 0⟩]
  args := []
  slots := 2
  parameters := 0

/-- A function that returns seven. -/
def seven : Function where
  cached := []
  constants := [.i64 ⟨7, by decide, by decide⟩]
  types := []
  ranges := []
  strings := []
  code := [⟨0, false, 0, 0, 0⟩, ⟨13, false, 0, 0, 0⟩]
  args := []
  slots := 1
  parameters := 0

def doubleEnv : Callees := ⟨1, [double, seven], fun _ => none, fun _ => true, fun _ => none⟩

def doubleSealed : Function :=
  { double with
    code := [⟨12, true, 0, 1, 0⟩, ⟨100, false, 1, 0, 0⟩, ⟨13, false, 1, 0, 0⟩]
    cached := [⟨.call 0 1 0 0, true⟩, ⟨.binary 1 .add 0 0, false⟩, ⟨.returnValue 1, false⟩] }

def sevenSealed : Function :=
  { seven with
    code := [⟨0, true, 0, 0, 0⟩, ⟨13, false, 0, 0, 0⟩]
    cached := [⟨.literal 0 (.i64 ⟨7, by decide, by decide⟩), true⟩, ⟨.returnValue 0, false⟩] }

def doubleSetting : Setting where
  floats := ⟨fun a _ => a, fun a _ => a, fun a _ => a, fun a _ => a, fun a _ => a, id⟩
  casts := ⟨fun _ => ⟨0⟩, fun _ => ⟨0⟩, fun _ => .ofWord 0, fun _ => asU64 (.ofWord 0)⟩
  code := 1
  functions := [doubleSealed, sevenSealed]
  limits := ⟨8, 64⟩

lemma doubleSetting_sealed : doubleSetting.Sealed doubleEnv where
  few := by decide
  functions := .cons rfl (.cons rfl .nil)
  sized := by decide

end Executor

end Exec

end Rnx
