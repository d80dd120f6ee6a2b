import Rnx.Json.Guard
import Rnx.Lib.Levels
import Rnx.Lib.Outcome

/-!
# The guard and the serializer

Both recursions accept a value exactly when all it is made of can be written and no path into it has
more values than the levels they may enter (`walk_ok_iff`, `serialize_ok_iff`).  The guard may enter
`MAX_VALUE_DEPTH` levels, the serializer only those that the walks in progress on the thread leave;
so they agree on a value unless it has more levels than that.
-/

namespace Rnx

namespace Json

open Relation (ReflTransGen TransGen)
open ErrState

variable {g : Graph} {v w : Value} {n : Nat} {t : Trail}

/-! ## Values and what they are made of -/

/-- The values a body holds. -/
def Body.items : Body → List Value
  | .vec items => items
  | .tuple items => items
  | .object entries => entries.map (·.2)
  | .option (some inner) => [inner]
  | _ => []

/-- The values a value is made of. -/
def Graph.items (g : Graph) : Value → List Value
  | .any address => (g.cell address).body.items
  | _ => []

/-- A value and one it is made of. -/
def Child (g : Graph) (v w : Value) : Prop := w ∈ g.items v

/-- The inline values that can be written. -/
def Inline.writable : Inline → Bool
  | .empty => false
  | .type _ => false
  | .ordering _ => false
  | .hash _ => false
  | _ => true

/-- The bodies that can be written. -/
def Body.writable : Body → Bool
  | .result => false
  | .function => false
  | .other => false
  | _ => true

/-- A value that can be written, but for what it is made of. -/
def Writable (g : Graph) : Value → Prop
  | .inline i => i.writable = true
  | .dynamic _ _ _ => False
  | .any address => (g.cell address).locked = false ∧ (g.cell address).body.writable = true

/-! ## The serializer -/

lemma mapM_ok_iff {α β : Type} {f : α → Except String β} {items : List α} :
    (∃ ds, items.mapM f = .ok ds) ↔ ∀ i ∈ items, ∃ d, f i = .ok d := by
  induction items with
  | nil => exact ⟨fun _ i hi => (by cases hi), fun _ => ⟨[], rfl⟩⟩
  | cons i items ih =>
      rw [List.mapM_cons, List.forall_mem_cons, ← ih]
      constructor
      · rintro ⟨ds, h⟩
        obtain ⟨d, hd, h⟩ := Except.bind_eq_ok.1 h
        obtain ⟨ds', hds, -⟩ := Except.bind_eq_ok.1 h
        exact ⟨⟨d, hd⟩, ⟨ds', hds⟩⟩
      · rintro ⟨⟨d, hd⟩, ⟨ds, hds⟩⟩
        exact ⟨d :: ds, by rw [hd, hds]; rfl⟩

lemma map_ok_iff {α β : Type} {x : Except String α} {f : α → β} :
    (∃ d, x.map f = .ok d) ↔ ∃ a, x = .ok a := by
  cases x with
  | error e => exact ⟨fun ⟨_, h⟩ => (nomatch h), fun ⟨_, h⟩ => (nomatch h)⟩
  | ok a => exact ⟨fun _ => ⟨a, rfl⟩, fun _ => ⟨f a, rfl⟩⟩

lemma inlineDoc_ok_iff {i : Inline} : (∃ d, inlineDoc i = .ok d) ↔ i.writable = true := by
  cases i <;> simp [inlineDoc, Inline.writable]

lemma entryDoc_ok_iff {f : Value → Except String Doc} {entry : String × Value} :
    (∃ d, entryDoc f entry = .ok d) ↔ ∃ d, f entry.2 = .ok d := by
  unfold entryDoc
  cases f entry.2 with
  | error e => exact ⟨fun ⟨_, h⟩ => (nomatch h), fun ⟨_, h⟩ => (nomatch h)⟩
  | ok d => exact ⟨fun _ => ⟨d, rfl⟩, fun _ => ⟨_, rfl⟩⟩

lemma fits_any_iff {address : Nat} : Fits (Child g) (Writable g) (n + 1) (.any address) ↔
    ((g.cell address).locked = false ∧ (g.cell address).body.writable = true) ∧
      ∀ w ∈ (g.cell address).body.items, Fits (Child g) (Writable g) n w := Iff.rfl

/-- **The serializer** accepts what can be written and has no more levels than it may enter. -/
lemma serialize_ok_iff : (∃ d, serialize g n v = .ok d) ↔ Fits (Child g) (Writable g) n v := by
  induction n generalizing v with
  | zero => exact ⟨fun ⟨_, h⟩ => (nomatch h), fun h => h.elim⟩
  | succ n ih =>
      cases v with
      | inline i =>
          rw [serialize]
          refine inlineDoc_ok_iff.trans ⟨fun h => ⟨h, fun w hw => (by cases hw)⟩, fun h => h.1⟩
      | dynamic kind item locked =>
          have hnone : ¬∃ d, serialize g (n + 1) (.dynamic kind item locked) = .ok d := by
            rintro ⟨d, h⟩
            cases kind <;> cases h
          exact ⟨fun h => (hnone h).elim, fun h => h.1.elim⟩
      | any address =>
          rw [fits_any_iff, serialize]
          cases hlocked : (g.cell address).locked with
          | true =>
              refine ⟨fun ⟨d, h⟩ => ?_, fun h => (nomatch h.1.1)⟩
              cases hbody : (g.cell address).body <;> rw [hbody] at h <;> cases h
          | false =>
              have hitems : ∀ items : List Value,
                  (∃ d, (items.mapM (serialize g n)).map Doc.seq = .ok d) ↔
                    ∀ w ∈ items, Fits (Child g) (Writable g) n w := by
                intro items
                rw [map_ok_iff, mapM_ok_iff]
                exact forall₂_congr fun _ _ => ih
              have hbody : ∀ {p : Prop}, p ↔ (false = false ∧ true = true) ∧ p := by
                intro p
                exact ⟨fun h => ⟨⟨rfl, rfl⟩, h⟩, fun h => h.2⟩
              cases (g.cell address).body with
              | result => exact ⟨fun ⟨_, h⟩ => (nomatch h), fun h => (nomatch h.1.2)⟩
              | function => exact ⟨fun ⟨_, h⟩ => (nomatch h), fun h => (nomatch h.1.2)⟩
              | other => exact ⟨fun ⟨_, h⟩ => (nomatch h), fun h => (nomatch h.1.2)⟩
              | string s => exact ⟨fun _ => hbody.1 fun w hw => (nomatch hw), fun _ => ⟨_, rfl⟩⟩
              | bytes b => exact ⟨fun _ => hbody.1 fun w hw => (nomatch hw), fun _ => ⟨_, rfl⟩⟩
              | vec items => exact (hitems items).trans hbody
              | tuple items => exact (hitems items).trans hbody
              | object entries =>
                  have hentries : (∃ d, (entries.mapM (entryDoc (serialize g n))).map Doc.map = .ok d) ↔
                      ∀ w ∈ entries.map (·.2), Fits (Child g) (Writable g) n w := by
                    rw [map_ok_iff, mapM_ok_iff, List.forall_mem_map]
                    exact forall₂_congr fun _ _ => entryDoc_ok_iff.trans ih
                  exact hentries.trans hbody
              | option inner =>
                  cases inner with
                  | none => exact ⟨fun _ => hbody.1 fun w hw => (nomatch hw), fun _ => ⟨_, rfl⟩⟩
                  | some inner =>
                      have hinner : (∃ d, (serialize g n inner).map Doc.some = .ok d) ↔
                          ∀ w ∈ [inner], Fits (Child g) (Writable g) n w := by
                        rw [map_ok_iff, ih, List.forall_mem_singleton]
                      exact hinner.trans hbody

/-! ## The guard -/

/-- No container the walk is in is reached from the value. -/
def Apart (g : Graph) (v : Value) (t : Trail) : Prop :=
  ∀ a ∈ t.active, ¬ReflTransGen (Child g) v (.any a)

/-- What a walk does: it leaves the path and the active containers as they were, accepts only values
with the property, and accepts those that do not reach back. -/
def Walks (g : Graph) (F : Value → Prop) (walk : Value → ErrState String Trail Unit) : Prop :=
  ∀ v t, (walk v).wp (fun _ t' => t' = t ∧ F v) (fun _ t' => t' = t ∧ ¬(F v ∧ Apart g v t)) t

lemma children_wp {F : Value → Prop} {walk : Value → ErrState String Trail Unit}
    (h : Walks g F walk) (items : List (Step × Value)) (t : Trail) :
    (children walk items).wp (fun _ t' => t' = t ∧ ∀ i ∈ items, F i.2)
      (fun _ t' => t' = { t with active := t.active.dropLast } ∧
        ¬∀ i ∈ items, F i.2 ∧ Apart g i.2 t) t := by
  induction items with
  | nil => exact ⟨rfl, fun i hi => (nomatch hi)⟩
  | cons i items ih =>
      obtain ⟨step, item⟩ := i
      have hpath : ({ t with path := (t.path ++ [step]).dropLast } : Trail) = t := by
        rw [List.dropLast_concat]
      apply wp_update_bind.2
      have hitem := (wp_attempt (E := fun _ _ => False) (Q := fun (outcome : Except String Unit) t' => t' = { t with path := t.path ++ [step] } ∧
        match outcome with
        | .ok _ => F item
        | .error _ => ¬(F item ∧ Apart g item t))).2 (h item { t with path := t.path ++ [step] })
      apply wp_seq hitem (fun _ _ h => h.elim)
      rintro outcome _ ⟨rfl, houtcome⟩
      apply wp_update_bind.2
      rw [hpath]
      cases outcome with
      | error reason =>
          exact ⟨rfl, fun hall => houtcome (hall _ List.mem_cons_self)⟩
      | ok _ =>
          apply wp_mono ih
          · rintro _ _ ⟨rfl, hall⟩
            exact ⟨rfl, List.forall_mem_cons.2 ⟨houtcome, hall⟩⟩
          · rintro _ _ ⟨rfl, hsome⟩
            exact ⟨rfl, fun hall => hsome fun i hi => hall i (List.mem_cons_of_mem _ hi)⟩

lemma descend_wp {F : Value → Prop} {walk : Value → ErrState String Trail Unit}
    (h : Walks g F walk) (left address : Nat) (items : List (Step × Value)) (t : Trail) :
    (descend g walk left address items).wp (fun _ t' => t' = t ∧ ∀ i ∈ items, F i.2)
      (fun _ t' => t' = t ∧ ¬(address ∉ t.active ∧ (left = 0 → items = []) ∧
        ∀ i ∈ items, F i.2 ∧ Apart g i.2 { t with active := t.active ++ [address] })) t := by
  have hactive : ({ t with active := (t.active ++ [address]).dropLast } : Trail) = t := by
    rw [List.dropLast_concat]
  apply wp_get_bind.2
  apply wp_ite
  · intro hcycle
    exact ⟨rfl, fun hall => hall.1 (List.contains_iff_mem.1 hcycle)⟩
  · intro _
    apply wp_ite
    · intro hdeep
      exact ⟨rfl, fun hall => hdeep.2 (hall.2.1 hdeep.1)⟩
    · intro _
      apply wp_update_bind.2
      apply wp_seq (children_wp h items _)
      · rintro _ _ ⟨rfl, hsome⟩
        exact ⟨hactive, fun hall => hsome hall.2.2⟩
      · rintro _ _ ⟨rfl, hall⟩
        exact ⟨hactive, hall⟩

lemma forall_indexed {P : Value → Prop} {items : List Value} :
    (∀ i ∈ indexed items, P i.2) ↔ ∀ w ∈ items, P w := by
  have hmap : (indexed items).map (·.2) = items := by
    unfold indexed
    refine List.ext_getElem? fun i => ?_
    rw [List.getElem?_map, List.getElem?_mapIdx, Option.map_map]
    exact Option.map_id'
  conv_rhs => rw [← hmap]
  rw [List.forall_mem_map]

lemma forall_keyed {P : Value → Prop} {entries : List (String × Value)} :
    (∀ i ∈ keyed entries, P i.2) ↔ ∀ w ∈ entries.map (·.2), P w := by
  unfold keyed
  rw [List.forall_mem_map, List.forall_mem_map]

/-- A container whose items are those of a value. -/
lemma container_wp (ih : Walks g (Fits (Child g) (Writable g) n) (walk g n)) {address : Nat}
    {items : List (Step × Value)} (hwritable : Writable g (.any address))
    (hitems : ∀ P : Value → Prop, (∀ i ∈ items, P i.2) ↔ ∀ w, Child g (.any address) w → P w)
    (t : Trail) : (descend g (walk g n) n address items).wp
      (fun _ t' => t' = t ∧ Fits (Child g) (Writable g) (n + 1) (.any address))
      (fun _ t' => t' = t ∧ ¬(Fits (Child g) (Writable g) (n + 1) (.any address) ∧
        Apart g (.any address) t)) t := by
  apply wp_mono (descend_wp ih n address items t)
  · rintro _ _ ⟨rfl, hall⟩
    exact ⟨rfl, hwritable, (hitems _).1 hall⟩
  · rintro _ _ ⟨rfl, hnot⟩
    refine ⟨rfl, fun ⟨hfits, hapart⟩ => hnot ⟨fun hmem => hapart address hmem .refl, ?_, ?_⟩⟩
    · rintro rfl
      refine List.eq_nil_iff_forall_not_mem.2 fun i hi => ?_
      exact (hitems fun w => Fits (Child g) (Writable g) 0 w).2 hfits.2 i hi
    · refine (hitems fun w => Fits (Child g) (Writable g) n w ∧ Apart g w _).2 fun w hw => ?_
      refine ⟨hfits.2 w hw, fun a ha hreach => ?_⟩
      obtain ha | ha := List.mem_append.1 ha
      · exact hapart a ha (.head hw hreach)
      · rw [List.mem_singleton.1 ha] at hreach
        exact (fits_iff.1 hfits).1.not_cycle (Relation.TransGen.head'_iff.2 ⟨w, hw, hreach⟩)

/-- **The guard** leaves its path and its active containers as they were, accepts only what can be
written and has no more levels than it may enter, and all of that which does not reach back. -/
lemma walk_wp (g : Graph) (n : Nat) : Walks g (Fits (Child g) (Writable g) n) (walk g n) := by
  induction n with
  | zero => exact fun v t => ⟨rfl, fun h => h.1⟩
  | succ n ih =>
      intro v t
      have hrefuse : ∀ what, ¬Writable g v → (refuseHere g what).wp
          (fun _ t' => t' = t ∧ Fits (Child g) (Writable g) (n + 1) v)
          (fun _ t' => t' = t ∧ ¬(Fits (Child g) (Writable g) (n + 1) v ∧ Apart g v t)) t :=
        fun what hnot => ⟨rfl, fun h => hnot h.1.1⟩
      have haccept : Fits (Child g) (Writable g) (n + 1) v →
          (pure () : ErrState String Trail Unit).wp
            (fun _ t' => t' = t ∧ Fits (Child g) (Writable g) (n + 1) v)
            (fun _ t' => t' = t ∧ ¬(Fits (Child g) (Writable g) (n + 1) v ∧ Apart g v t)) t :=
        fun h => ⟨rfl, h⟩
      cases v with
      | inline i =>
          have hleaf : i.writable = true → Fits (Child g) (Writable g) (n + 1) (.inline i) :=
            fun h => ⟨h, fun w hw => (nomatch hw)⟩
          cases i with
          | empty => exact hrefuse _ (fun h => (nomatch h))
          | type h => exact hrefuse _ (fun h => (nomatch h))
          | ordering o => exact hrefuse _ (fun h => (nomatch h))
          | hash h => exact hrefuse _ (fun h => (nomatch h))
          | _ => exact haccept (hleaf rfl)
      | dynamic kind item locked => cases kind <;> cases locked <;> exact hrefuse _ id
      | any address =>
          rw [walk]
          apply wp_ite
          · intro hlocked
            exact hrefuse _ fun hwritable => by
              rw [hwritable.1] at hlocked
              cases hlocked
          · intro hlocked
            rw [Bool.not_eq_true] at hlocked
            have hchild : ∀ {body : Body}, (g.cell address).body = body → ∀ P : Value → Prop,
                (∀ w ∈ body.items, P w) ↔ ∀ w, Child g (.any address) w → P w := by
              rintro _ rfl P
              rfl
            have hwritable : ∀ {body : Body}, (g.cell address).body = body → body.writable = true →
                Writable g (.any address) := by
              rintro _ rfl h
              exact ⟨hlocked, h⟩
            have hnot : ∀ {body : Body}, (g.cell address).body = body → body.writable = false →
                ¬Writable g (.any address) := by
              rintro _ rfl h hw
              rw [hw.2] at h
              cases h
            have hleaf : ∀ {body : Body}, (g.cell address).body = body → body.writable = true →
                body.items = [] → Fits (Child g) (Writable g) (n + 1) (.any address) := by
              intro body hbody h hnil
              refine ⟨hwritable hbody h, (hchild hbody _).1 fun w hw => ?_⟩
              rw [hnil] at hw
              cases hw
            cases hbody : (g.cell address).body with
            | result => exact hrefuse _ (hnot hbody rfl)
            | function => exact hrefuse _ (hnot hbody rfl)
            | other => exact hrefuse _ (hnot hbody rfl)
            | string s => exact haccept (hleaf hbody rfl rfl)
            | bytes b => exact haccept (hleaf hbody rfl rfl)
            | vec items =>
                exact container_wp ih (hwritable hbody rfl)
                  (fun P => forall_indexed.trans (hchild hbody P)) t
            | tuple items =>
                exact container_wp ih (hwritable hbody rfl)
                  (fun P => forall_indexed.trans (hchild hbody P)) t
            | object entries =>
                exact container_wp ih (hwritable hbody rfl)
                  (fun P => forall_keyed.trans (hchild hbody P)) t
            | option inner =>
                cases inner with
                | none => exact haccept (hleaf hbody rfl rfl)
                | some inner =>
                    have honly : ∀ P : Value → Prop, P inner ↔ ∀ w, Child g (.any address) w → P w :=
                      fun P => List.forall_mem_singleton.symm.trans (hchild hbody P)
                    apply wp_mono (ih inner t)
                    · rintro _ _ ⟨rfl, h⟩
                      exact ⟨rfl, hwritable hbody rfl, (honly _).1 h⟩
                    · rintro _ _ ⟨rfl, h⟩
                      refine ⟨rfl, fun ⟨hfits, hapart⟩ => h ⟨(honly _).2 hfits.2, ?_⟩⟩
                      refine (honly fun w => Apart g w _).2 fun w hw a ha hreach => ?_
                      exact hapart a ha (.head hw hreach)

lemma walk_restores (g : Graph) (n : Nat) (v : Value) (t : Trail) : (walk g n v t).2 = t := by
  have h := walk_wp g n v t
  unfold wp at h
  split at h
  · next heq => rw [heq, h.1]
  · next heq => rw [heq, h.1]

lemma walk_ok_iff {path : List Step} :
    (walk g n v ⟨path, []⟩).1 = .ok () ↔ Fits (Child g) (Writable g) n v := by
  have h := walk_wp g n v ⟨path, []⟩
  unfold wp at h
  split at h
  · next heq =>
      rw [heq]
      exact ⟨fun _ => h.2, fun _ => rfl⟩
  · next reason _ heq =>
      rw [heq]
      exact ⟨fun hok => (nomatch hok), fun hfits => (h.2 ⟨hfits, fun a ha => (nomatch ha)⟩).elim⟩

lemma walk_refuses (path : List Step) (h : ¬Fits (Child g) (Writable g) n v) :
    ∃ reason, (walk g n v ⟨path, []⟩).1 = .error reason := by
  cases heq : (walk g n v ⟨path, []⟩).1 with
  | error reason => exact ⟨reason, rfl⟩
  | ok _ => exact (h (walk_ok_iff.1 heq)).elim

/-! ## Agreement -/

/-- What the guard is for, of a value that is written while `depth` walks over values are in
progress. -/
structure Agrees (g : Graph) (depth : Nat) (v : Value) : Prop where
  written : (walk g maxDepth v ⟨[], []⟩).1 = .ok () → ∃ d, serialize g (maxDepth - depth) v = .ok d
  returned : (walk g maxDepth v ⟨[], []⟩).1 = .ok () → ∃ text, stringify g depth v = .ok text
  cyclic : ∀ w, ReflTransGen (Child g) v w → TransGen (Child g) w w →
    ∃ reason, stringify g depth v = .error reason ∧ (walk g maxDepth v ⟨[], []⟩).1 = .error reason
  deep : ¬Levels (Child g) maxDepth v →
    ∃ reason, stringify g depth v = .error reason ∧ (walk g maxDepth v ⟨[], []⟩).1 = .error reason
  shared : Levels (Child g) maxDepth v → (∀ w, ReflTransGen (Child g) v w → Writable g w) →
    (walk g maxDepth v ⟨[], []⟩).1 = .ok ()
  restored : ∀ n w t, (walk g n w t).2 = t

lemma stringify_refused {depth : Nat} (h : ¬Fits (Child g) (Writable g) maxDepth v) :
    ∃ reason, stringify g depth v = .error reason ∧
      (walk g maxDepth v ⟨[], []⟩).1 = .error reason := by
  obtain ⟨reason, heq⟩ := walk_refuses [] h
  exact ⟨reason, by rw [stringify, heq], heq⟩

/-- **The guard agrees with the serializer exactly where the levels suffice.**  A value that the guard
accepts is written when it has no more levels than the walks in progress leave; that the guard refuses
cycles and values too deep, accepts what is shared, and restores its path, holds of every value. -/
theorem agrees_iff (g : Graph) (depth : Nat) (v : Value) : Agrees g depth v ↔
    ((∀ w, ReflTransGen (Child g) v w → Writable g w) → Levels (Child g) maxDepth v →
      Levels (Child g) (maxDepth - depth) v) := by
  constructor
  · intro h hall hlevels
    obtain ⟨d, hd⟩ := h.written (h.shared hlevels hall)
    exact (fits_iff.1 (serialize_ok_iff.1 ⟨d, hd⟩)).1
  · intro h
    have hwritten : (walk g maxDepth v ⟨[], []⟩).1 = .ok () →
        ∃ d, serialize g (maxDepth - depth) v = .ok d := by
      intro hok
      obtain ⟨hlevels, hall⟩ := fits_iff.1 (walk_ok_iff.1 hok)
      exact serialize_ok_iff.2 (fits_iff.2 ⟨h hall hlevels, hall⟩)
    refine ⟨hwritten, fun hok => ?_, fun w hw hcycle => ?_, fun hdeep => ?_, fun hlevels hall => ?_,
      walk_restores g⟩
    · obtain ⟨d, hd⟩ := hwritten hok
      exact ⟨g.write d, by rw [stringify, hok, hd]⟩
    · exact stringify_refused fun hfits => (fits_iff.1 hfits).1.acyclic hw hcycle
    · exact stringify_refused fun hfits => hdeep (fits_iff.1 hfits).1
    · exact walk_ok_iff.2 (fits_iff.2 ⟨hlevels, hall⟩)

/-- Vectors nested in each other, an integer in the innermost. -/
def nested : Graph where
  cell a := ⟨false, .vec [if a = 0 then .inline (.signed 1) else .any (a - 1)]⟩
  typeInfo _ := ""
  access _ := ""
  debug s := s
  write _ := ""

lemma nested_fits (a : Nat) : Fits (Child nested) (Writable nested) (a + 2) (.any a) := by
  induction a with
  | zero =>
      refine ⟨⟨rfl, rfl⟩, fun w hw => ?_⟩
      rw [List.mem_singleton.1 hw]
      exact ⟨rfl, fun w hw => (nomatch hw)⟩
  | succ a ih =>
      refine ⟨⟨rfl, rfl⟩, fun w hw => ?_⟩
      rw [List.mem_singleton.1 hw]
      exact ih

lemma nested_levels (a : Nat) : ¬Levels (Child nested) (a + 1) (.any a) := by
  induction a with
  | zero => exact fun h => h (.inline (.signed 1)) (List.mem_singleton.2 rfl)
  | succ a ih => exact fun h => ih (h (.any a) (List.mem_singleton.2 rfl))

lemma nested_refused (a : Nat) : serialize nested (a + 1) (.any a) =
    .error "Value is nested too deeply to walk, limit is 64" := by
  induction a with
  | zero => rfl
  | succ a ih =>
      rw [serialize]
      change Except.map Doc.seq (List.mapM (serialize nested (a + 1)) [.any a]) = _
      rw [List.mapM_cons, ih]
      rfl

/-- A value of as many levels as there may be, written in a closure that an iterator adapter calls while
it is walked itself. -/
theorem not_agrees_nested : ¬Agrees nested 1 (.any 62) ∧ stringify nested 1 (.any 62) =
    .error ("the JSON writer refused a walked value: " ++
      "Value is nested too deeply to walk, limit is 64") := by
  refine ⟨fun h => ?_, ?_⟩
  · obtain ⟨d, hd⟩ := h.written (walk_ok_iff.2 (nested_fits 62))
    exact nested_levels 62 (fits_iff.1 (serialize_ok_iff.1 ⟨d, hd⟩)).1
  · have hwalk : (walk nested maxDepth (.any 62) ⟨[], []⟩).1 = .ok () :=
      walk_ok_iff.2 (nested_fits 62)
    have hserialize : serialize nested (maxDepth - 1) (.any 62) =
        .error "Value is nested too deeply to walk, limit is 64" := nested_refused 62
    rw [stringify, hwalk, hserialize]

end Json

end Rnx
