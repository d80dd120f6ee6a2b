import Rnx.Host.Eval
import Rnx.Lib.Outcome

/-!
# Publication is all or nothing, but for an object returned early

A failed input leaves declarations, names and published bindings as they were.  A successful one
merges the object its unit returns: from the end of the generated wrapper that object holds exactly
the restored and the declared names, but a `return` in the input can hand over any object.  So the
published keys stay equal to the names, and only names the input mentions or declares change,
exactly when each object returned holds every newly declared name and rebinds no other.
-/

namespace Rnx

namespace Host.Evaluation

open Std (TreeMap TreeSet)

/-! ## Finite maps of the session -/

lemma mem_insert_name {names : TreeSet String} {a k : String} :
    k ∈ names.insert a ↔ k = a ∨ k ∈ names := by
  rw [TreeSet.mem_insert, Std.LawfulEqCmp.compare_eq_iff_eq, eq_comm]

/-- Writing the entries of an object, name by name. -/
lemma insertAll_get (keys : List String) (get : String → Value) (state : TreeMap String Value)
    (k : String) :
    (insertAll keys get state)[k]? = if k ∈ keys then some (get k) else state[k]? := by
  unfold insertAll
  induction keys generalizing state with
  | nil => simp
  | cons name keys ih =>
      rw [List.foldl_cons, ih, TreeMap.getElem?_insert]
      by_cases hk : k ∈ keys
      · simp [hk]
      · by_cases hn : name = k
        · simp [hn]
        · simp [hk, hn, Ne.symm hn]

lemma mem_insertAll {keys : List String} {get : String → Value} {state : TreeMap String Value}
    {k : String} : k ∈ insertAll keys get state ↔ k ∈ keys ∨ k ∈ state := by
  rw [TreeMap.mem_iff_isSome_getElem?, insertAll_get, TreeMap.mem_iff_isSome_getElem?]
  by_cases hk : k ∈ keys <;> simp [hk]

/-! ## What an input mentions and declares -/

/-- The scan finds published names only. -/
lemma findAll_published {published : TreeSet String} {groups : List String}
    {found : TreeSet String} (hfound : ∀ k ∈ found, k ∈ published) :
    ∀ k ∈ findAll published groups found, k ∈ published := by
  unfold findAll
  induction groups generalizing found with
  | nil => exact hfound
  | cons group groups ih =>
      rw [List.foldl_cons]
      apply ih
      intro k hk
      split_ifs at hk with hp
      · obtain rfl | hk := mem_insert_name.1 hk
        · exact TreeSet.mem_iff_contains.2 hp
        · exact hfound k hk
      · exact hfound k hk

lemma scan_published {published : TreeSet String} {tokens : List Token} {found : TreeSet String}
    (hfound : ∀ k ∈ found, k ∈ published) : ∀ k ∈ scan published tokens found, k ∈ published := by
  induction tokens generalizing found with
  | nil => exact hfound
  | cons token tokens ih =>
      unfold scan
      split
      · exact ih (findAll_published hfound)
      · split
        · exact fun k hk => hk
        · exact ih (findAll_published hfound)
      · exact ih hfound

theorem mentioned_published {tokens : List Token} {published : TreeSet String} {k : String}
    (h : k ∈ mentioned tokens published) : k ∈ published := by
  unfold mentioned at h
  split_ifs at h with hempty
  · simp at h
  · exact scan_published (by simp) k h

mutual

/-- The names a pattern binds. -/
def Pat.bound (source : String) : Pat → List String
  | .path (some ident) => [ident.text source]
  | .tuple items | .vec items | .object items => Pat.boundAll source items
  | .binding pat => pat.bound source
  | .path none | .ignore | .rest | .lit | .other => []

/-- The names the items of a pattern bind. -/
def Pat.boundAll (source : String) : List Pat → List String
  | [] => []
  | pat :: items => pat.bound source ++ Pat.boundAll source items

end

/-- The names the `let` statements of a block bind. -/
def declaredNames (source : String) : List Statement → List String
  | [] => []
  | ⟨_, .local pat⟩ :: rest => pat.bound source ++ declaredNames source rest
  | _ :: rest => declaredNames source rest

mutual

lemma bindings_names {source : String} : ∀ (pat : Pat) {names names' : TreeSet String},
    bindings source pat names = .ok names' →
      ∀ k, k ∈ names' ↔ k ∈ names ∨ k ∈ pat.bound source
  | .path none, _, _, h => by cases h
  | .path (some ident), names, names', h => by
      intro k
      obtain ⟨_, _, h⟩ := Except.bind_eq_ok.1 h
      obtain rfl := Except.ok.inj h
      rw [mem_insert_name, Pat.bound, List.mem_singleton, or_comm]
  | .tuple items, _, _, h => bindingsAll_names items h
  | .vec items, _, _, h => bindingsAll_names items h
  | .object items, _, _, h => bindingsAll_names items h
  | .binding pat, _, _, h => bindings_names pat h
  | .ignore, _, _, h | .rest, _, _, h | .lit, _, _, h => by
      intro k
      obtain rfl := Except.ok.inj h
      simp [Pat.bound]
  | .other, _, _, h => by cases h

lemma bindingsAll_names {source : String} : ∀ (items : List Pat) {names names' : TreeSet String},
    bindingsAll source items names = .ok names' →
      ∀ k, k ∈ names' ↔ k ∈ names ∨ k ∈ Pat.boundAll source items
  | [], _, _, h => by
      intro k
      obtain rfl := Except.ok.inj h
      simp [Pat.boundAll]
  | pat :: items, _, _, h => by
      intro k
      obtain ⟨mid, hmid, h⟩ := Except.bind_eq_ok.1 h
      rw [bindingsAll_names items h k, bindings_names pat hmid k, Pat.boundAll, List.mem_append, or_assoc]

end

variable {s t : Session} {w : World} {input : String} {number : Nat} {p q : Parts}

lemma declare_names {start : Nat} {wrapped text : String} {item : Item}
    (h : declare s number wrapped start text item p = .ok q) : q.names = p.names := by
  unfold declare at h
  split at h
  · cases h
  · obtain ⟨_, _, h⟩ := Except.bind_eq_ok.1 h
    simp only at h
    split_ifs at h
    all_goals
      obtain rfl := Except.ok.inj h
      rfl

/-- A statement adds the names it binds. -/
lemma takeStatement_names {wrapped : String} {stop : Nat} {last : Bool} {st : Statement}
    (h : takeStatement s number wrapped st.start stop last st.stmt p = .ok q) (k : String) :
    k ∈ q.names ↔ k ∈ p.names ∨ k ∈ declaredNames wrapped [st] := by
  obtain ⟨start, stmt⟩ := st
  cases stmt with
  | item item =>
      rw [declare_names h]
      simp [declaredNames]
  | «local» pat =>
      obtain ⟨names, hnames, h⟩ := Except.bind_eq_ok.1 h
      obtain rfl := Except.ok.inj h
      simpa [declaredNames] using bindings_names pat hnames k
  | expr span =>
      simp only [takeStatement] at h
      split_ifs at h
      all_goals
        obtain rfl := Except.ok.inj h
        simp [declaredNames]
  | semi =>
      obtain rfl := Except.ok.inj h
      simp [declaredNames]
  | other => cases h

lemma declaredNames_cons (source : String) (st : Statement) (rest : List Statement) :
    declaredNames source (st :: rest) = declaredNames source [st] ++ declaredNames source rest := by
  obtain ⟨start, stmt⟩ := st
  cases stmt <;> simp [declaredNames]

lemma takeStatements_names {wrapped : String} {close : Nat} {sts : List Statement}
    (h : takeStatements s number wrapped close sts p = .ok q) (k : String) :
    k ∈ q.names ↔ k ∈ p.names ∨ k ∈ declaredNames wrapped sts := by
  induction sts generalizing p with
  | nil =>
      obtain rfl := Except.ok.inj h
      simp [declaredNames]
  | cons st rest ih =>
      obtain ⟨mid, hmid, h⟩ := Except.bind_eq_ok.1 h
      rw [ih h, takeStatement_names hmid, declaredNames_cons wrapped st rest, List.mem_append, or_assoc]

/-- The input binds the name in a `let`. -/
def Declares (w : World) (input k : String) : Prop :=
  ∃ block, w.parse (wrap input) = .ok block ∧ k ∈ declaredNames (wrap input) block.statements

/-- The input mentions the name, or binds it in a `let`. -/
def Touches (w : World) (s : Session) (input k : String) : Prop :=
  k ∈ mentioned (w.tokens input) s.names ∨ Declares w input k

/-! ## One evaluation -/

/-- Declarations, names and published bindings are the same. -/
structure Unchanged (s t : Session) : Prop where
  declarations : t.declarations = s.declarations
  names : t.names = s.names
  state : t.state = s.state

/-- The published keys are the names. -/
def Settled (s : Session) : Prop := ∀ k, k ∈ s.state ↔ k ∈ s.names

/-- What a successful input leaves: the published keys are the names, and a name the input neither
mentions nor declares keeps its value. -/
structure Published (w : World) (input : String) (s t : Session) : Prop where
  settled : Settled t
  kept : ∀ k, ¬ Touches w s input k → t.state[k]? = s.state[k]?

/-- An evaluation publishes all of its input or nothing. -/
def AllOrNothing (w : World) (input : String) (number : Nat) (s : Session) : Prop :=
  (evalInner w input number).wp (fun _ t => Published w input s t) (fun _ t => Unchanged s t) s

/-- The object a unit returns, if it returns one in a pair, holds every newly declared name, and
rebinds a name the input neither mentions nor declares only to the value it has. -/
def ReturnsDelta (w : World) (input : String) (number : Nat) (s : Session) : Prop :=
  (prepare w input number).wp
    (fun p _ => ∀ keys get value, p.output = .tuple [.object keys get, value] →
      (∀ k, Declares w input k → k ∈ s.names ∨ k ∈ keys) ∧
        ∀ k ∈ keys, Touches w s input k ∨ s.state[k]? = some (get k))
    (fun _ _ => True) s

lemma Unchanged.refl (s : Session) : Unchanged s s := ⟨rfl, rfl, rfl⟩

/-- The two compile attempts write the generated source only. -/
lemma compileEither_unchanged (w : World) (build : Bool → Generated) (s : Session) :
    (compileEither w build).wp (fun _ t => Unchanged s t) (fun _ t => Unchanged s t) s := by
  apply ErrState.wp_get_bind.2
  split
  · exact Unchanged.refl s
  · split
    · exact Unchanged.refl s
    · simp only
      split
      all_goals exact ErrState.wp_update_bind.2 ⟨rfl, rfl, rfl⟩

/-- Up to the value the unit returns nothing is published, and the names to publish are those the
session had and those the input declares. -/
lemma prepare_spec (w : World) (input : String) (number : Nat) (s : Session) :
    (prepare w input number).wp
      (fun p t => Unchanged s t ∧ ∀ k, k ∈ p.parts.names ↔ k ∈ s.names ∨ Declares w input k)
      (fun _ t => Unchanged s t) s := by
  apply ErrState.wp_get_bind.2
  apply ErrState.wp_ofExcept_bind
  · intro e _
    exact Unchanged.refl s
  intro block hblock
  apply ErrState.wp_ofExcept_bind
  · intro e _
    exact Unchanged.refl s
  intro parts hparts
  apply ErrState.wp_ofExcept_bind
  · intro e _
    exact Unchanged.refl s
  intro state _
  apply ErrState.wp_seq (compileEither_unchanged w _ s) (fun _ _ h => h)
  intro ⟨generated, awaits, unit⟩ t ht
  apply ErrState.wp_update_bind.2
  have hnames : ∀ k, k ∈ parts.names ↔ k ∈ s.names ∨ Declares w input k := by
    intro k
    have hparse : w.parse (wrap input) = .ok block := by
      cases hw : w.parse (wrap input) with
      | error e => rw [hw] at hblock; cases hblock
      | ok b =>
          rw [hw] at hblock
          exact congrArg Except.ok (Except.ok.inj hblock)
    rw [takeStatements_names hparts k]
    constructor
    · intro h
      exact h.imp_right fun h => ⟨block, hparse, h⟩
    · intro h
      apply h.imp_right
      intro ⟨b, hb, hk⟩
      obtain rfl := Except.ok.inj (hb.symm.trans hparse)
      exact hk
  split
  · exact ⟨ht.declarations, ht.names, ht.state⟩
  · apply ErrState.wp_update_bind.2
    apply ErrState.wp_get_bind.2
    apply ErrState.wp_ofExcept_bind
    · intro e _
      exact ⟨ht.declarations, ht.names, ht.state⟩
    · intro output _
      exact ⟨⟨ht.declarations, ht.names, ht.state⟩, hnames⟩

/-- What publication of an object leaves is right exactly when the object was. -/
lemma published_iff (hs : Settled s) {names : TreeSet String} {keys : List String}
    {get : String → Value} {declarations : TreeMap String Declaration} (ht : Unchanged s t)
    (hnames : ∀ k, k ∈ names ↔ k ∈ s.names ∨ Declares w input k) :
    Published w input s { t with
        state := insertAll keys get t.state, declarations := declarations, names := names } ↔
      (∀ k, Declares w input k → k ∈ s.names ∨ k ∈ keys) ∧
        ∀ k ∈ keys, Touches w s input k ∨ s.state[k]? = some (get k) := by
  constructor
  · intro h
    constructor
    · intro k hk
      have hmem := (h.settled k).2 ((hnames k).2 (.inr hk))
      rw [mem_insertAll, ht.state] at hmem
      exact hmem.symm.imp_left (hs k).1
    · intro k hk
      by_cases htouch : Touches w s input k
      · exact .inl htouch
      · have hkept := h.kept k htouch
        rw [insertAll_get, if_pos hk] at hkept
        exact .inr hkept.symm
  · intro ⟨hdeclared, hkeys⟩
    constructor
    · intro k
      show k ∈ insertAll keys get t.state ↔ k ∈ names
      rw [mem_insertAll, hnames, ht.state, hs k]
      constructor
      · intro h
        obtain hk | hk := h
        · obtain (hm | hd) | hsame := hkeys k hk
          · exact .inl (mentioned_published hm)
          · exact .inr hd
          · have hin : k ∈ s.state := by
              rw [TreeMap.mem_iff_isSome_getElem?, hsame]
              rfl
            exact .inl ((hs k).1 hin)
        · exact .inl hk
      · intro h
        obtain hk | hd := h
        · exact .inr hk
        · exact (hdeclared k hd).symm
    · intro k hk
      show (insertAll keys get t.state)[k]? = s.state[k]?
      rw [insertAll_get, ht.state]
      split_ifs with hmem
      · exact ((hkeys k hmem).resolve_left hk).symm
      · rfl

/-- A pair of an object and a value is published. -/
lemma publish_object {p : Prepared} {keys : List String} {get : String → Value} {value : Value}
    (h : p.output = .tuple [.object keys get, value]) (t : Session) :
    publish w p t = (.ok value, { t with
      state := insertAll keys get t.state, declarations := p.parts.declarations
      names := p.parts.names }) := by
  unfold publish
  rw [h]
  rfl

/-- Whatever else a unit returns is refused, and nothing is written. -/
lemma publish_other {p : Prepared}
    (h : ∀ keys get value, p.output ≠ .tuple [.object keys get, value]) (t : Session) :
    ∃ e, publish w p t = (.error e, t) := by
  unfold publish
  match hv : p.output with
  | .tuple [.object keys get, value] => exact absurd hv (h keys get value)
  | .tuple [.tuple _, _] | .tuple [.other _, _] => exact ⟨_, rfl⟩
  | .tuple [] | .tuple [_] | .tuple (_ :: _ :: _ :: _) => exact ⟨_, rfl⟩
  | .object _ _ | .other _ => exact ⟨_, rfl⟩

/-- One evaluation of a settled session publishes whole or not at all exactly when the object its
unit returns is a delta. -/
lemma allOrNothing_iff (hs : Settled s) :
    AllOrNothing w input number s ↔ ReturnsDelta w input number s := by
  unfold AllOrNothing ReturnsDelta evalInner
  rw [ErrState.wp_bind]
  have hprepare := prepare_spec w input number s
  unfold ErrState.wp at hprepare ⊢
  rcases hp : prepare w input number s with ⟨e | p, t⟩
  · simp only [hp] at hprepare ⊢
    exact iff_of_true hprepare trivial
  · simp only [hp] at hprepare ⊢
    obtain ⟨ht, hnames⟩ := hprepare
    by_cases hobject : ∃ keys get value, p.output = .tuple [.object keys get, value]
    · obtain ⟨keys, get, value, hv⟩ := hobject
      rw [publish_object hv]
      refine (published_iff hs ht hnames).trans ?_
      constructor
      · intro h keys' get' value' hv'
        rw [hv] at hv'
        obtain ⟨⟨rfl, rfl⟩, rfl⟩ : (keys = keys' ∧ get = get') ∧ value = value' := by
          simpa using hv'
        exact h
      · intro h
        exact h keys get value hv
    · push Not at hobject
      obtain ⟨e, he⟩ := publish_other (w := w) hobject t
      rw [he]
      exact iff_of_true ht fun keys get value hv => absurd hv (hobject keys get value)

/-! ## The runs of a session -/

/-- What a session is asked to do. -/
inductive Event
  | eval (w : World) (live : Nat) (input : String)
  | reset
  | renumber
  | sample (live : Option Nat)
  | setBudget (budget : Nat)

/-- The session after an event. -/
def Event.apply (s : Session) : Event → Session
  | .eval w live input => (evalInput w live input s).2
  | .reset => Evaluation.reset s
  | .renumber => Evaluation.renumber s
  | .sample live => Evaluation.sample live s
  | .setBudget budget => Evaluation.setBudget budget s

/-- Every evaluation of a run satisfies `P`, where it starts. -/
def Along (P : World → String → Nat → Session → Prop) : Session → List Event → Prop
  | _, [] => True
  | s, .eval w live input :: es =>
    (admits s input = true → P w input (admitted s input).inputs.length (admitted s input)) ∧
      Along P (Event.apply s (.eval w live input)) es
  | s, e :: es => Along P (e.apply s) es

lemma evalInput_admitted {live : Nat} (h : admits s input = true) :
    evalInput w live input s =
      evalInner w input (admitted s input).inputs.length (admitted s input) := by
  unfold admits at h
  unfold evalInput
  have hover : s.overCeiling = false := by
    cases hs : s.overCeiling with
    | true => simp [hs] at h
    | false => rfl
  have hlen : ¬ inputCap < input.utf8ByteSize := by
    simp [hover] at h
    omega
  rw [if_neg (by simp [hover]), if_neg hlen]

lemma evalInput_refused {live : Nat} (h : ¬ admits s input = true) :
    (evalInput w live input s).2 = s := by
  unfold admits at h
  unfold evalInput
  split_ifs with hover hlen
  · rfl
  · rfl
  · simp [hover] at h
    omega

/-- An evaluation that publishes whole or not at all keeps the session settled. -/
lemma AllOrNothing.settled (hs : Settled s) (h : AllOrNothing w input number s) :
    Settled (evalInner w input number s).2 := by
  unfold AllOrNothing ErrState.wp at h
  rcases heval : evalInner w input number s with ⟨e | v, t⟩
  · rw [heval] at h
    intro k
    rw [h.state, h.names]
    exact hs k
  · rw [heval] at h
    exact h.settled

lemma sample_settled {live : Option Nat} (hs : Settled s) : Settled (sample live s) := by
  unfold sample
  split
  · split_ifs
    · exact hs
    · exact hs
  · exact hs

/-- The same of whole runs: the evaluations of a run from a settled session all publish whole or not
at all exactly when every object its units return is a delta. -/
lemma along_iff (hs : Settled s) (es : List Event) :
    Along AllOrNothing s es ↔ Along ReturnsDelta s es := by
  induction es generalizing s with
  | nil => exact Iff.rfl
  | cons e es ih =>
      cases e with
      | eval w live input =>
          by_cases hadmits : admits s input = true
          · have hs' : Settled (admitted s input) := hs
            have hone : AllOrNothing w input (admitted s input).inputs.length (admitted s input) ↔
                ReturnsDelta w input (admitted s input).inputs.length (admitted s input) :=
              allOrNothing_iff hs'
            have hnext : AllOrNothing w input (admitted s input).inputs.length
                (admitted s input) → Settled (Event.apply s (.eval w live input)) := by
              intro h
              show Settled (evalInput w live input s).2
              rw [evalInput_admitted hadmits]
              exact h.settled hs'
            constructor
            · intro ⟨h, hrest⟩
              exact ⟨fun ha => hone.1 (h ha), (ih (hnext (h hadmits))).1 hrest⟩
            · intro ⟨h, hrest⟩
              exact ⟨fun ha => hone.2 (h ha), (ih (hnext (hone.2 (h hadmits)))).2 hrest⟩
          · have hnext : Settled (Event.apply s (.eval w live input)) := by
              show Settled (evalInput w live input s).2
              rw [evalInput_refused hadmits]
              exact hs
            constructor
            · intro ⟨_, hrest⟩
              exact ⟨fun ha => absurd ha hadmits, (ih hnext).1 hrest⟩
            · intro ⟨_, hrest⟩
              exact ⟨fun ha => absurd ha hadmits, (ih hnext).2 hrest⟩
      | reset =>
          apply ih
          intro k
          simp [Event.apply, Evaluation.reset]
      | renumber => exact ih hs
      | sample live => exact ih (sample_settled hs)
      | setBudget budget => exact ih hs

/-- A failed evaluation leaves declarations, names and published bindings as they were, whatever the
session. -/
lemma evalInner_failed (w : World) (input : String) (number : Nat) (s : Session) :
    (evalInner w input number).wp (fun _ _ => True) (fun _ t => Unchanged s t) s := by
  unfold evalInner
  apply ErrState.wp_seq (prepare_spec w input number s)
  · intro e t ht
    exact ht
  · intro p t ⟨ht, _⟩
    by_cases hobject : ∃ keys get value, p.output = .tuple [.object keys get, value]
    · obtain ⟨keys, get, value, hv⟩ := hobject
      unfold ErrState.wp
      rw [publish_object hv]
      trivial
    · push Not at hobject
      obtain ⟨e, he⟩ := publish_other (w := w) hobject t
      unfold ErrState.wp
      rw [he]
      exact ht

/-- A failed evaluation publishes nothing; and in every run of a new session, the evaluations all
publish whole or not at all exactly when every object the units return in a pair is a delta: it
holds each newly declared name, and changes only names its input mentions or declares. -/
theorem publication_exact (ceiling budget : Nat) (es : List Event) :
    (∀ w input number s,
      (evalInner w input number).wp (fun _ _ => True) (fun _ t => Unchanged s t) s) ∧
    (Along AllOrNothing (new ceiling budget) es ↔
      Along ReturnsDelta (new ceiling budget) es) := by
  constructor
  · exact evalInner_failed
  · apply along_iff
    intro k
    simp [new]

/-! ## The end of the wrapper, and a return before it -/

lemma mem_deltaNames {referenced names : TreeSet String} {k : String} :
    k ∈ deltaNames s referenced names ↔ k ∈ referenced ∨ (k ∈ names ∧ k ∉ s.names) := by
  have hfold : ∀ (l : List String) (found : TreeSet String),
      k ∈ l.foldl (·.insert ·) found ↔ k ∈ found ∨ k ∈ l := by
    intro l
    induction l with
    | nil => simp
    | cons a l ih =>
        intro found
        rw [List.foldl_cons, ih, mem_insert_name, List.mem_cons]
        tauto
  unfold deltaNames
  rw [hfold, List.mem_filter, TreeSet.mem_toList, Bool.not_eq_true', ← Bool.not_eq_true,
    TreeSet.contains_iff_mem]

/-- The object at the end of the generated wrapper is a delta: an input that does not return before
it publishes whole. -/
theorem tail_returnsDelta
    (h : (prepare w input number).wp (fun p _ => ∃ get value, p.output = .tuple
      [.object (deltaNames s (mentioned (w.tokens input) s.names) p.parts.names).toList get, value])
      (fun _ _ => True) s) : ReturnsDelta w input number s := by
  apply ErrState.wp_mono (ErrState.wp_and (prepare_spec w input number s) h)
  · intro p t ⟨⟨_, hnames⟩, get, value, hv⟩ keys get' value' hv'
    rw [hv] at hv'
    obtain ⟨⟨rfl, rfl⟩, rfl⟩ : (_ = keys ∧ get = get') ∧ value = value' := by simpa using hv'
    constructor
    · intro k hk
      rw [TreeSet.mem_toList, mem_deltaNames]
      by_cases hin : k ∈ s.names
      · exact .inl hin
      · exact .inr (.inr ⟨(hnames k).2 (.inr hk), hin⟩)
    · intro k hk
      rw [TreeSet.mem_toList, mem_deltaNames] at hk
      obtain hm | ⟨hn, hin⟩ := hk
      · exact .inl (.inl hm)
      · exact .inl (.inr (((hnames k).1 hn).resolve_left hin))
  · intro _ _ _
    trivial

/-- The input `return (#{y: 1}, 0);` as its world has it: one statement, a unit that compiles, and the
pair it returns. -/
def returnsEarly : World where
  parse := fun _ => .ok ⟨[⟨1, .semi⟩], 22⟩
  tokens := fun _ => []
  compile := fun _ => .ok 0
  alive := fun _ => true
  run := fun _ _ _ => .complete (.tuple [.object ["y"] fun _ => .other 1, .other 0])
  display := fun _ => ""
  refusal := fun _ => ""
  fault := fun _ => none

/-- The input returns before the end of its wrapper. -/
def earlyReturn : String := "return (#\x7by: 1\x7d, 0);"

set_option maxRecDepth 10000 in
/-- In a new session the input publishes `y`, which is no name of the session. -/
theorem early_return_publishes :
    ¬ AllOrNothing returnsEarly earlyReturn 1 (admitted (new 1 1) earlyReturn) := by
  intro h
  have hnew : Settled (admitted (new 1 1) earlyReturn) := by
    intro k
    simp [new, admitted]
  have hpublished : (evalInner returnsEarly earlyReturn 1
      (admitted (new 1 1) earlyReturn)).2.state.contains "y" = true := by decide
  have hname : (evalInner returnsEarly earlyReturn 1
      (admitted (new 1 1) earlyReturn)).2.names.contains "y" = false := by decide
  have hmem := (h.settled hnew "y").1 (TreeMap.mem_iff_contains.2 hpublished)
  rw [TreeSet.mem_iff_contains, hname] at hmem
  cases hmem

end Host.Evaluation

end Rnx
