import Rnx.Code.Op

/-!
# Programs

A compiled program as the tiers read it: its functions, each with the instruction cache the
executor fetches from, and the two policies a host entry is checked against.
-/

namespace Rnx

/-- `prepare_cache`: the cache is the decoded code. -/
def Function.prepareCache (f : Function) : Except Error Function := do
  let cached ← f.code.mapM fun i => (f.decode i).map fun op => ⟨op, i.charged⟩
  .ok { f with cached := cached }

/-- `Program`, whose functions have been through `prepare_cache`. -/
structure Program where
  code : Nat
  functions : List Function
  entryIneligible : List Nat
  formattingGuard : Nat
  cached : ∀ f ∈ functions, f.prepareCache = .ok f

namespace Program

/-- `Code::function`. -/
def function (p : Program) (id : Nat) : Option Function := p.functions[id]?

/-- `entry_eligible`. -/
def entryEligible (p : Program) (id : Nat) : Bool :=
  (p.function id).isSome && !p.entryIneligible.contains id

end Program

/-- Decoding a list of instructions into a cache decodes each of them. -/
lemma Function.cached_of_mapM {f : Function} {code : List Instruction}
    {cached : List CachedInstruction}
    (h : (code.mapM fun i => (f.decode i).map fun op => CachedInstruction.mk op i.charged)
      = .ok cached) :
    cached.length = code.length ∧ ∀ (pc : Nat) (i : Instruction), code[pc]? = some i →
      ∃ op, f.decode i = .ok op ∧ cached[pc]? = some (CachedInstruction.mk op i.charged) := by
  obtain ⟨hlength, hat⟩ := Except.mapM_eq_ok h
  refine ⟨hlength, fun pc i hi => ?_⟩
  obtain ⟨c, hc, hmap⟩ := hat pc i hi
  rcases hd : f.decode i with e | op
  · rw [hd] at hmap
    cases hmap
  · rw [hd] at hmap
    exact ⟨op, rfl, hc.trans (congrArg some (Except.ok.inj hmap).symm)⟩

/-- The cached operation at a pc is the decoded one, with the charge of its instruction. -/
lemma Function.cached_of_prepareCache {f : Function} (h : f.prepareCache = .ok f) :
    f.cached.length = f.code.length ∧ ∀ (pc : Nat) (i : Instruction), f.code[pc]? = some i →
      ∃ op, f.decode i = .ok op ∧ f.cached[pc]? = some (CachedInstruction.mk op i.charged) := by
  obtain ⟨cached, hm, hf⟩ := Except.bind_eq_ok.1 h
  have hc : cached = f.cached := congrArg Function.cached (Except.ok.inj hf)
  rw [hc] at hm
  exact Function.cached_of_mapM hm

end Rnx
