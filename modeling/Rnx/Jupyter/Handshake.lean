import Rnx.Jupyter.Reading

/-!
# The handshake

`handshake` of `transport.rs`, from the greeting a peer sends to the identity it gives: the READY
command lists properties, each a name and a value with their lengths.  An access behind the end of
the command would panic; that it never happens is part of what is proved.
-/

namespace Rnx

namespace Jupyter.Transport

/-- Why a handshake has no result. -/
inductive Fault
  | panic
  | refused (error : String)
deriving DecidableEq, Repr

/-- An error of the connection. -/
def fallible {α : Type} : Except String α → Except Fault α
  | .ok a => .ok a
  | .error e => .error (.refused e)

/-- `ready[p]`. -/
def byteAt (ready : Bytes) (p : Nat) : Except Fault UInt8 :=
  match ready[p]? with
  | some b => .ok b
  | none => .error .panic

/-- `ready[p..q]`. -/
def sliceOf (ready : Bytes) (p q : Nat) : Except Fault Bytes :=
  if p ≤ q ∧ q ≤ ready.length then .ok ((ready.drop p).take (q - p)) else .error .panic

/-- A refusal unless the condition holds. -/
def demand (c : Prop) [Decidable c] (error : String) : Except Fault Unit :=
  if c then .ok () else .error (.refused error)

/-- `u8::to_ascii_lowercase`. -/
def lowerByte (b : UInt8) : UInt8 := if 65 ≤ b ∧ b ≤ 90 then b + 32 else b

/-- The bytes of the name of a property, once it is in lower case. -/
def nameByte (b : UInt8) : Bool :=
  decide (48 ≤ b ∧ b ≤ 57) || decide (65 ≤ b ∧ b ≤ 90) || decide (97 ≤ b ∧ b ≤ 122) ||
    [45, 95, 46, 43].contains b

/-- One property behind `p`: its name in lower case, its value and where it ends. -/
def property (ready : Bytes) (p : Nat) : Except Fault (Bytes × Bytes × Nat) := do
  let n ← byteAt ready p
  let n := n.toNat
  let p := p + 1
  demand (¬(n = 0 ∨ ready.length < p + n + 4)) "metadata name"
  let name ← sliceOf ready p (p + n)
  let name := name.map lowerByte
  demand (name.all nameByte = true) "metadata name"
  let p := p + n
  let len ← sliceOf ready p (p + 4)
  let len := BigEndian.ofBytes len
  let p := p + 4
  if ready.length < p then .error .panic
  else do
    demand (len ≤ ready.length - p) "metadata length"
    let value ← sliceOf ready p (p + len)
    .ok (name, value, p + len)

lemma byteAt_eq_ok {ready : Bytes} {p : Nat} {b : UInt8} :
    byteAt ready p = .ok b ↔ ready[p]? = some b := by
  unfold byteAt
  split
  · rename_i b' h
    rw [h, Except.ok.injEq, Option.some.injEq]
  · rename_i h
    rw [h]
    exact iff_of_false nofun nofun

lemma demand_eq_ok {c : Prop} [Decidable c] {error : String} : demand c error = .ok () ↔ c := by
  unfold demand
  split_ifs with h
  · exact iff_of_true rfl h
  · exact iff_of_false nofun h

lemma sliceOf_eq_ok {ready b : Bytes} {p q : Nat} : sliceOf ready p q = .ok b ↔
    p ≤ q ∧ q ≤ ready.length ∧ b.length = q - p ∧ ready.drop p = b ++ ready.drop q := by
  unfold sliceOf
  constructor
  · intro h
    split_ifs at h with hin
    obtain ⟨hpq, hq⟩ := hin
    obtain rfl := Except.ok.inj h
    refine ⟨hpq, hq, List.length_take_of_le (by rw [List.length_drop]; omega), ?_⟩
    have hdrop : ready.drop q = (ready.drop p).drop (q - p) := by
      rw [List.drop_drop, Nat.add_sub_cancel' hpq]
    rw [hdrop, List.take_append_drop]
  · rintro ⟨hpq, hq, hlength, hdrop⟩
    rw [if_pos ⟨hpq, hq⟩, hdrop, List.take_left' hlength]

/-! ## Properties -/

/-- A property as it is sent. -/
structure Property where
  name : Bytes
  value : Bytes
deriving DecidableEq, Repr

namespace Property

/-- The bytes of a property. -/
def bytes (f : Property) : Bytes :=
  UInt8.ofNat f.name.length :: (f.name ++ (BigEndian.toBytes 4 f.value.length ++ f.value))

/-- What may be sent. -/
structure Valid (f : Property) : Prop where
  name_pos : f.name ≠ []
  name_lt : f.name.length < 256
  name_all : (f.name.map lowerByte).all nameByte = true
  value_lt : f.value.length < 256 ^ 4

/-- A property under its name in lower case. -/
def entry (f : Property) : Bytes × Bytes := (f.name.map lowerByte, f.value)

lemma length_bytes (f : Property) : f.bytes.length = f.name.length + f.value.length + 5 := by
  simp only [bytes, List.length_cons, List.length_append, BigEndian.length_toBytes]
  omega

end Property

/-- What is read as a property is one. -/
lemma property_sound {ready name value : Bytes} {p q : Nat}
    (h : property ready p = .ok (name, value, q)) :
    ∃ f : Property, f.Valid ∧ (name, value) = f.entry ∧ q = p + f.bytes.length ∧
      q ≤ ready.length ∧ ready.drop p = f.bytes ++ ready.drop q := by
  obtain ⟨n, hn, h⟩ := Except.bind_eq_ok.1 h
  obtain ⟨_, hname, h⟩ := Except.bind_eq_ok.1 h
  obtain ⟨raw, hraw, h⟩ := Except.bind_eq_ok.1 h
  obtain ⟨_, hall, h⟩ := Except.bind_eq_ok.1 h
  obtain ⟨len, hlen, h⟩ := Except.bind_eq_ok.1 h
  dsimp only at h
  split_ifs at h with hpanic
  obtain ⟨_, hroom, h⟩ := Except.bind_eq_ok.1 h
  obtain ⟨v, hv, hout⟩ := Except.bind_eq_ok.1 h
  obtain ⟨rfl, hend⟩ := Prod.mk.inj (Except.ok.inj hout)
  obtain ⟨rfl, rfl⟩ := Prod.mk.inj hend
  have hn := byteAt_eq_ok.1 hn
  obtain ⟨hpos, hfit⟩ := not_or.1 (demand_eq_ok.1 hname)
  have hall := demand_eq_ok.1 hall
  obtain ⟨-, -, hrawlen, hraw⟩ := sliceOf_eq_ok.1 hraw
  obtain ⟨-, -, hlenlen, hlen⟩ := sliceOf_eq_ok.1 hlen
  obtain ⟨-, hq, hvlen, hv⟩ := sliceOf_eq_ok.1 hv
  rw [Nat.add_sub_cancel_left] at hrawlen hlenlen hvlen
  have hlt := n.toNat_lt
  have hvalue : len.length = 4 := hlenlen
  have hbound := BigEndian.ofBytes_lt len
  rw [hvalue] at hbound
  have hnbyte : UInt8.ofNat raw.length = n := by rw [hrawlen, UInt8.ofNat_toNat]
  have hlenbytes : BigEndian.toBytes 4 v.length = len := by
    rw [hvlen, ← hvalue, BigEndian.toBytes_ofBytes]
  have hvalid : Property.Valid ⟨raw, v⟩ := by
    refine ⟨fun hnil => ?_, ?_, hall, ?_⟩
    · rw [show raw = [] from hnil] at hrawlen
      exact hpos hrawlen.symm
    · dsimp only
      omega
    · dsimp only
      omega
  refine ⟨⟨raw, v⟩, hvalid, rfl, ?_, hq, ?_⟩
  · rw [Property.length_bytes]
    dsimp only
    omega
  · obtain ⟨hp, hget⟩ := List.getElem?_eq_some_iff.1 hn
    rw [Property.bytes, hnbyte, hlenbytes, List.drop_eq_getElem_cons hp, hget, hraw, hlen, hv]
    simp

/-- Every property is read. -/
lemma property_complete {ready rest : Bytes} {p : Nat} {f : Property} (hf : f.Valid)
    (h : ready.drop p = f.bytes ++ rest) (hp : p ≤ ready.length) :
    property ready p = .ok (f.entry.1, f.entry.2, p + f.bytes.length) := by
  have hlength : f.bytes.length + rest.length = ready.length - p := by
    rw [← List.length_append, ← h, List.length_drop]
  rw [f.length_bytes] at hlength
  have hat : ∀ (u v w : Bytes), f.bytes ++ rest = u ++ (v ++ w) →
      sliceOf ready (p + u.length) (p + u.length + v.length) = .ok v := by
    intro u v w huv
    have htotal : (f.bytes ++ rest).length = u.length + (v.length + w.length) := by
      rw [huv, List.length_append, List.length_append]
    rw [List.length_append, f.length_bytes] at htotal
    have hdrop : ∀ k, ready.drop (p + k) = (u ++ (v ++ w)).drop k := fun k => by
      rw [← List.drop_drop, h, huv]
    refine sliceOf_eq_ok.2 ⟨Nat.le_add_right .., by omega, by omega, ?_⟩
    rw [hdrop, Nat.add_assoc, hdrop, List.drop_left' rfl, ← List.append_assoc,
      List.drop_left' (List.length_append ..)]
  have hn : (UInt8.ofNat f.name.length).toNat = f.name.length := by
    rw [UInt8.toNat_ofNat']
    exact Nat.mod_eq_of_lt hf.name_lt
  have hname := hat [UInt8.ofNat f.name.length] f.name
    (BigEndian.toBytes 4 f.value.length ++ f.value ++ rest) (by simp [Property.bytes])
  have hlen := hat (UInt8.ofNat f.name.length :: f.name) (BigEndian.toBytes 4 f.value.length)
    (f.value ++ rest) (by simp [Property.bytes])
  have hvalue := hat
    (UInt8.ofNat f.name.length :: (f.name ++ BigEndian.toBytes 4 f.value.length)) f.value rest
    (by simp [Property.bytes])
  rw [List.length_singleton] at hname
  rw [List.length_cons, BigEndian.length_toBytes,
    show p + (f.name.length + 1) = p + 1 + f.name.length by omega] at hlen
  rw [List.length_cons, List.length_append, BigEndian.length_toBytes,
    show p + (f.name.length + 4 + 1) = p + 1 + f.name.length + 4 by omega] at hvalue
  have hbyte : byteAt ready p = .ok (UInt8.ofNat f.name.length) := by
    refine byteAt_eq_ok.2 ?_
    have hhead : (ready.drop p)[0]? = some (UInt8.ofNat f.name.length) := by
      rw [h]
      rfl
    rwa [List.getElem?_drop, Nat.add_zero] at hhead
  have hpos : f.name.length ≠ 0 := fun hzero => hf.name_pos (List.length_eq_zero_iff.1 hzero)
  unfold property
  refine Except.bind_eq_ok.2 ⟨_, hbyte, ?_⟩
  dsimp only
  rw [hn]
  refine Except.bind_eq_ok.2 ⟨(), demand_eq_ok.2 (by omega), ?_⟩
  refine Except.bind_eq_ok.2 ⟨_, hname, ?_⟩
  refine Except.bind_eq_ok.2 ⟨(), demand_eq_ok.2 hf.name_all, ?_⟩
  refine Except.bind_eq_ok.2 ⟨_, hlen, ?_⟩
  rw [BigEndian.ofBytes_toBytes hf.value_lt, if_neg (by omega)]
  refine Except.bind_eq_ok.2 ⟨(), demand_eq_ok.2 (by omega), ?_⟩
  refine Except.bind_eq_ok.2 ⟨_, hvalue, ?_⟩
  rw [f.length_bytes]
  exact congrArg Except.ok (Prod.ext rfl (Prod.ext rfl (by dsimp only; omega)))

/-- A guard lets through what meets it and never panics. -/
lemma demand_ends {c : Prop} [Decidable c] {error : String} :
    (demand c error).Ends (fun _ => c) (· ≠ .panic) := by
  unfold demand
  split_ifs with h
  · exact h
  · exact nofun

/-- A range inside the command is read. -/
lemma sliceOf_ends {ready : Bytes} {p q : Nat} (hpq : p ≤ q) (hq : q ≤ ready.length) :
    (sliceOf ready p q).Ends (fun b => b.length = q - p) (· ≠ .panic) := by
  unfold sliceOf
  rw [if_pos ⟨hpq, hq⟩]
  exact List.length_take_of_le (by rw [List.length_drop]; omega)

/-- No access to a property is behind the end of the command. -/
lemma property_ends {ready : Bytes} {p : Nat} (hp : p < ready.length) :
    (property ready p).Ends (fun _ => True) (· ≠ .panic) := by
  have hbyte : byteAt ready p = .ok ready[p] := byteAt_eq_ok.2 (List.getElem?_eq_getElem hp)
  unfold property
  rw [hbyte]
  refine demand_ends.bind fun _ hname => ?_
  obtain ⟨-, hfit⟩ := not_or.1 hname
  refine (sliceOf_ends (by omega) (by omega)).bind fun name _ => ?_
  refine demand_ends.bind fun _ _ => ?_
  refine (sliceOf_ends (by omega) (by omega)).bind fun len _ => ?_
  dsimp only
  rw [if_neg (by omega)]
  refine demand_ends.bind fun _ hroom => ?_
  exact (sliceOf_ends (by omega) (by omega)).bind fun _ _ => trivial

/-! ## The list of properties -/

/-- One round of the loop over the properties. -/
def propertyRound (ready : Bytes) (p : Nat) (props : List (Bytes × Bytes)) :
    Except Fault (List (Bytes × Bytes) × Nat) := do
  demand (props.length ≠ 64) "metadata count"
  let (name, value, q) ← property ready p
  demand (props.lookup name = none) "duplicate metadata"
  .ok (props ++ [(name, value)], q)

lemma propertyRound_eq_ok {ready : Bytes} {p q : Nat} {props props' : List (Bytes × Bytes)} :
    propertyRound ready p props = .ok (props', q) ↔ props.length ≠ 64 ∧
      ∃ name value, property ready p = .ok (name, value, q) ∧ props.lookup name = none ∧
        props' = props ++ [(name, value)] := by
  unfold propertyRound
  constructor
  · intro h
    obtain ⟨_, hcount, h⟩ := Except.bind_eq_ok.1 h
    obtain ⟨⟨name, value, end'⟩, hproperty, h⟩ := Except.bind_eq_ok.1 h
    obtain ⟨_, hfresh, hout⟩ := Except.bind_eq_ok.1 h
    obtain ⟨rfl, rfl⟩ := Prod.mk.inj (Except.ok.inj hout)
    exact ⟨demand_eq_ok.1 hcount, name, value, hproperty, demand_eq_ok.1 hfresh, rfl⟩
  · rintro ⟨hcount, name, value, hproperty, hfresh, rfl⟩
    refine Except.bind_eq_ok.2 ⟨(), demand_eq_ok.2 hcount, ?_⟩
    refine Except.bind_eq_ok.2 ⟨_, hproperty, ?_⟩
    exact Except.bind_eq_ok.2 ⟨(), demand_eq_ok.2 hfresh, rfl⟩

lemma propertyRound_lt {ready : Bytes} {p : Nat} {props : List (Bytes × Bytes)}
    {r : List (Bytes × Bytes) × Nat} (h : propertyRound ready p props = .ok r) : p < r.2 := by
  obtain ⟨-, name, value, hproperty, -⟩ := propertyRound_eq_ok.1 h
  obtain ⟨f, -, -, hq, -⟩ := property_sound hproperty
  rw [hq, f.length_bytes]
  omega

/-- The loop over the properties. -/
def properties (ready : Bytes) (p : Nat) (props : List (Bytes × Bytes)) :
    Except Fault (List (Bytes × Bytes)) :=
  if _hp : p < ready.length then
    match _h : propertyRound ready p props with
    | .error e => .error e
    | .ok (props, q) => properties ready q props
  else .ok props
termination_by ready.length - p
decreasing_by
  have := propertyRound_lt _h
  dsimp only at this
  omega

variable {ready : Bytes} {p : Nat} {props out : List (Bytes × Bytes)}

/-- The loop never panics. -/
lemma properties_ends (hp : p ≤ ready.length) :
    (properties ready p props).Ends (fun _ => True) (· ≠ .panic) := by
  induction hn : ready.length - p using Nat.strong_induction_on generalizing p props with
  | _ n ih =>
    rw [properties]
    split_ifs with hlt
    · have hround : (propertyRound ready p props).Ends (fun _ => True) (· ≠ .panic) := by
        unfold propertyRound
        refine demand_ends.bind fun _ _ => ?_
        exact (property_ends hlt).bind fun _ _ => demand_ends.bind fun _ _ => trivial
      split
      · rename_i e he
        rw [he] at hround
        exact hround
      · rename_i props' q hq
        have hless := propertyRound_lt hq
        obtain ⟨-, name, value, hproperty, -, rfl⟩ := propertyRound_eq_ok.1 hq
        obtain ⟨f, -, -, -, hle, -⟩ := property_sound hproperty
        exact ih (ready.length - q) (by omega) hle rfl
    · trivial

lemma lookup_none_iff {name : Bytes} : props.lookup name = none ↔ name ∉ props.map Prod.fst := by
  rw [List.lookup_eq_none_iff, List.mem_map]
  constructor
  · rintro h ⟨entry, hentry, rfl⟩
    simpa using h entry hentry
  · intro h entry hentry
    have hne : name ≠ entry.1 := fun heq => h ⟨entry, hentry, heq.symm⟩
    simpa using hne

/-- What is read is a list of properties. -/
lemma properties_sound (hp : p ≤ ready.length) (hle : props.length ≤ 64)
    (hnodup : (props.map Prod.fst).Nodup) (h : properties ready p props = .ok out) :
    ∃ fs : List Property, (∀ f ∈ fs, f.Valid) ∧ ready.drop p = fs.flatMap Property.bytes ∧
      out = props ++ fs.map Property.entry ∧ out.length ≤ 64 ∧ (out.map Prod.fst).Nodup := by
  induction hn : ready.length - p using Nat.strong_induction_on generalizing p props with
  | _ n ih =>
    rw [properties] at h
    split_ifs at h with hlt
    · split at h
      · cases h
      · rename_i props' q hq
        have hless := propertyRound_lt hq
        obtain ⟨hcount, name, value, hproperty, hfresh, rfl⟩ := propertyRound_eq_ok.1 hq
        obtain ⟨f, hf, hentry, -, hend, hdrop⟩ := property_sound hproperty
        rw [hentry] at h
        have hlength : (props ++ [f.entry]).length ≤ 64 := by
          rw [List.length_append, List.length_singleton]
          omega
        have hnew : ((props ++ [f.entry]).map Prod.fst).Nodup := by
          rw [List.map_append, List.map_singleton, ← hentry]
          rw [← List.concat_eq_append]
          exact hnodup.concat (lookup_none_iff.1 hfresh)
        obtain ⟨fs, hfs, hrest, hout, hbound, hall⟩ := ih _ (by omega) hend hlength hnew h rfl
        refine ⟨f :: fs, List.forall_mem_cons.2 ⟨hf, hfs⟩, ?_, ?_, hbound, hall⟩
        · rw [hdrop, hrest, List.flatMap_cons]
        · rw [hout, List.map_cons, List.append_assoc]
          rfl
    · obtain rfl := Except.ok.inj h
      refine ⟨[], List.forall_mem_nil _, ?_, (List.append_nil _).symm, hle, hnodup⟩
      rw [List.drop_eq_nil_of_le (Nat.le_of_not_lt hlt)]
      rfl

/-- Every list of properties is read. -/
lemma properties_complete {fs : List Property} (hp : p ≤ ready.length) (hfs : ∀ f ∈ fs, f.Valid)
    (hdrop : ready.drop p = fs.flatMap Property.bytes)
    (hle : (props ++ fs.map Property.entry).length ≤ 64)
    (hnodup : ((props ++ fs.map Property.entry).map Prod.fst).Nodup) :
    properties ready p props = .ok (props ++ fs.map Property.entry) := by
  induction fs generalizing p props with
  | nil =>
    have hend := congrArg List.length hdrop
    rw [List.length_drop] at hend
    rw [properties, dif_neg (by simp at hend; omega), List.map_nil, List.append_nil]
  | cons f fs ih =>
    obtain ⟨hf, hfs⟩ := List.forall_mem_cons.1 hfs
    rw [List.flatMap_cons] at hdrop
    have hlength := congrArg List.length hdrop
    rw [List.length_drop, List.length_append, f.length_bytes] at hlength
    have hsplit : props ++ (f :: fs).map Property.entry =
        (props ++ [f.entry]) ++ fs.map Property.entry := by simp
    rw [hsplit] at hle hnodup ⊢
    have hround : propertyRound ready p props = .ok (props ++ [f.entry], p + f.bytes.length) := by
      refine propertyRound_eq_ok.2 ⟨?_, f.entry.1, f.entry.2, property_complete hf hdrop hp, ?_,
        rfl⟩
      · rw [List.length_append, List.length_append, List.length_singleton] at hle
        omega
      · rw [List.map_append, List.map_append] at hnodup
        have hfirst := (List.nodup_append.1 hnodup).1
        exact lookup_none_iff.2 fun hmem =>
          (List.nodup_append.1 hfirst).2.2 _ hmem _ (List.mem_singleton_self _) rfl
    have hrest : ready.drop (p + f.bytes.length) = fs.flatMap Property.bytes := by
      rw [← List.drop_drop, hdrop, List.drop_left' rfl]
    rw [properties, dif_pos (by omega)]
    split
    · rename_i e he
      cases hround.symm.trans he
    · rename_i props' q hq
      obtain ⟨rfl, rfl⟩ := Prod.mk.inj (Except.ok.inj (hround.symm.trans hq))
      exact ih (by rw [f.length_bytes]; omega) hfs hrest hle hnodup

/-! ## The handshake -/

/-- `\x05READY`. -/
def readyName : Bytes := [5, 82, 69, 65, 68, 89]

/-- `socket-type`. -/
def socketType : Bytes := [115, 111, 99, 107, 101, 116, 45, 116, 121, 112, 101]

/-- `identity`. -/
def identityName : Bytes := [105, 100, 101, 110, 116, 105, 116, 121]

/-- The socket that goes with an endpoint: `SUB`, `REQ` or `DEALER`. -/
def want : Kind → Bytes
  | .pub => [83, 85, 66]
  | .rep => [82, 69, 81]
  | .router => [68, 69, 65, 76, 69, 82]

/-- The check of the 64 bytes of a greeting: its signature, its version and the `NULL` mechanism. -/
def greets (g : Bytes) : Bool :=
  decide (g.getD 0 0 = 255 ∧ g.getD 9 0 = 127 ∧ 3 ≤ g.getD 10 0 ∧
    (g.drop 12).take 20 = [78, 85, 76, 76] ++ List.replicate 16 0 ∧ g.getD 32 0 = 0)

/-- What a READY command says: the identity of the peer, unless it is empty. -/
def readyCommand (kind : Kind) (ready : Bytes) : Except Fault (Option Bytes) := do
  demand (readyName.isPrefixOf ready = true) "READY required"
  let props ← properties ready 6 []
  demand (props.lookup socketType = some (want kind)) "socket pairing"
  let id := props.lookup identityName
  demand (id.all (·.length ≤ 255) = true) "identity length"
  .ok (id.filter (· ≠ []))

/-- `handshake`, as far as it reads. -/
def handshake (kind : Kind) (s : Bytes) : Except Fault (Option Bytes × Bytes) := do
  let (greeting, s) ← fallible (readExact 64 s)
  demand (greets greeting = true) "greeting"
  let ((flag, n), s) ← fallible (header s)
  demand (flag &&& 4 ≠ 0) "READY command required"
  let (ready, s) ← fallible (body n 8192 s)
  let id ← readyCommand kind ready
  .ok (id, s)

lemma fallible_eq_ok {α : Type} {x : Except String α} {a : α} : fallible x = .ok a ↔ x = .ok a := by
  cases x with
  | ok b => simp [fallible]
  | error e => exact iff_of_false nofun nofun

lemma fallible_ends {α : Type} (x : Except String α) :
    (fallible x).Ends (fun a => x = .ok a) (· ≠ .panic) := by
  cases x with
  | ok a => rfl
  | error e => exact nofun

/-- A READY command a peer may send to an endpoint, and the identity it gives. -/
structure Ready (kind : Kind) (ready : Bytes) (id : Option Bytes) (fs : List Property) : Prop where
  bytes_eq : ready = readyName ++ fs.flatMap Property.bytes
  valid : ∀ f ∈ fs, f.Valid
  count_le : fs.length ≤ 64
  /-- No name is given twice, in upper case or in lower case. -/
  nodup : ((fs.map Property.entry).map Prod.fst).Nodup
  paired : (fs.map Property.entry).lookup socketType = some (want kind)
  short : ∀ i, (fs.map Property.entry).lookup identityName = some i → i.length ≤ 255
  id_eq : id = ((fs.map Property.entry).lookup identityName).filter (· ≠ [])

lemma readyCommand_iff {kind : Kind} {ready : Bytes} {id : Option Bytes} :
    readyCommand kind ready = .ok id ↔ ∃ fs, Ready kind ready id fs := by
  unfold readyCommand
  constructor
  · intro h
    obtain ⟨_, hstart, h⟩ := Except.bind_eq_ok.1 h
    obtain ⟨props, hprops, h⟩ := Except.bind_eq_ok.1 h
    obtain ⟨_, hpaired, h⟩ := Except.bind_eq_ok.1 h
    obtain ⟨_, hshort, hout⟩ := Except.bind_eq_ok.1 h
    obtain ⟨t, rfl⟩ := List.isPrefixOf_iff_prefix.1 (demand_eq_ok.1 hstart)
    have hlength : 6 ≤ (readyName ++ t).length := by
      rw [List.length_append]
      exact Nat.le_add_right ..
    obtain ⟨fs, hfs, hdrop, rfl, hcount, hnodup⟩ :=
      properties_sound hlength (by simp) (by simp) hprops
    rw [List.drop_left' (by rfl)] at hdrop
    refine ⟨fs, by rw [hdrop], hfs, by simpa using hcount, hnodup,
      demand_eq_ok.1 hpaired, fun i hi => ?_, (Except.ok.inj hout).symm⟩
    have hall := demand_eq_ok.1 hshort
    rw [List.nil_append, hi] at hall
    exact of_decide_eq_true hall
  · rintro ⟨fs, rfl, hfs, hcount, hnodup, hpaired, hshort, rfl⟩
    have hlength : 6 ≤ (readyName ++ fs.flatMap Property.bytes).length := by
      rw [List.length_append]
      exact Nat.le_add_right ..
    have hprops : properties (readyName ++ fs.flatMap Property.bytes) 6 [] =
        .ok ([] ++ fs.map Property.entry) :=
      properties_complete hlength hfs (List.drop_left' rfl) (by simpa using hcount) hnodup
    refine Except.bind_eq_ok.2 ⟨(), demand_eq_ok.2 (List.isPrefixOf_iff_prefix.2
      (List.prefix_append _ _)), ?_⟩
    refine Except.bind_eq_ok.2 ⟨_, hprops, ?_⟩
    refine Except.bind_eq_ok.2 ⟨(), demand_eq_ok.2 hpaired, ?_⟩
    refine Except.bind_eq_ok.2 ⟨(), demand_eq_ok.2 ?_, rfl⟩
    rw [List.nil_append]
    cases hid : (fs.map Property.entry).lookup identityName with
    | none => rfl
    | some i => exact decide_eq_true (hshort i hid)

lemma readyCommand_ends (kind : Kind) (ready : Bytes) :
    (readyCommand kind ready).Ends (fun _ => True) (· ≠ .panic) := by
  unfold readyCommand
  refine demand_ends.bind fun _ hstart => ?_
  obtain ⟨t, rfl⟩ := List.isPrefixOf_iff_prefix.1 hstart
  have hlength : 6 ≤ (readyName ++ t).length := by
    rw [List.length_append]
    exact Nat.le_add_right ..
  refine (properties_ends hlength).bind fun props _ => ?_
  exact demand_ends.bind fun _ _ => demand_ends.bind fun _ _ => trivial

lemma handshake_ends (kind : Kind) (s : Bytes) :
    (handshake kind s).Ends (fun _ => True) (· ≠ .panic) := by
  unfold handshake
  refine (fallible_ends _).bind fun first _ => ?_
  obtain ⟨greeting, s₁⟩ := first
  refine demand_ends.bind fun _ _ => ?_
  refine (fallible_ends _).bind fun second _ => ?_
  obtain ⟨⟨flag, n⟩, s₂⟩ := second
  refine demand_ends.bind fun _ _ => ?_
  refine (fallible_ends _).bind fun third _ => ?_
  obtain ⟨ready, s₃⟩ := third
  exact (readyCommand_ends kind ready).bind fun _ _ => trivial

/-- **Handshakes**: exactly the byte strings are accepted that begin with a greeting of version 3 or
later with the `NULL` mechanism and a READY command whose properties are well formed, at most 64,
without two of one name in any case, and pair the sockets; the identity is that property, unless
it is empty.  Reading them never accesses a byte behind the end of the command. -/
theorem handshake_accepted (kind : Kind) (s rest : Bytes) (id : Option Bytes) :
    (handshake kind s = .ok (id, rest) ↔ ∃ greeting long ready fs, greeting.length = 64 ∧
      greets greeting = true ∧ FitsForm long ready.length ∧ ready.length ≤ 8192 ∧
      s = greeting ++ frameBytes .command long ready ++ rest ∧ Ready kind ready id fs) ∧
      handshake kind s ≠ .error .panic := by
  refine ⟨⟨fun h => ?_, ?_⟩, ?_⟩
  · obtain ⟨⟨greeting, s₁⟩, hread, h⟩ := Except.bind_eq_ok.1 h
    obtain ⟨_, hgreets, h⟩ := Except.bind_eq_ok.1 h
    obtain ⟨⟨⟨flag, n⟩, s₂⟩, hhead, h⟩ := Except.bind_eq_ok.1 h
    obtain ⟨_, hcommand, h⟩ := Except.bind_eq_ok.1 h
    obtain ⟨⟨ready, s₃⟩, hbody, h⟩ := Except.bind_eq_ok.1 h
    obtain ⟨i, hready, hout⟩ := Except.bind_eq_ok.1 h
    obtain ⟨rfl, rfl⟩ := Prod.mk.inj (Except.ok.inj hout)
    obtain ⟨hlength, rfl⟩ := readExact_eq_ok.1 (fallible_eq_ok.1 hread)
    obtain ⟨tag, long, rfl, hform, rfl⟩ := nextHeader_eq_ok.1 (fallible_eq_ok.1 hhead)
    obtain rfl := (tag.flag_command long).1 (demand_eq_ok.1 hcommand)
    obtain ⟨hcap, rfl, rfl⟩ := body_eq_ok.1 (fallible_eq_ok.1 hbody)
    obtain ⟨fs, hfs⟩ := readyCommand_iff.1 hready
    refine ⟨greeting, long, ready, fs, hlength, demand_eq_ok.1 hgreets, hform, hcap, ?_, hfs⟩
    simp [frameBytes]
  · rintro ⟨greeting, long, ready, fs, hlength, hgreets, hform, hcap, rfl, hfs⟩
    obtain ⟨hhead, hbody⟩ := frame_read .command 8192 hform hcap rest
    rw [List.append_assoc]
    refine Except.bind_eq_ok.2 ⟨_, fallible_eq_ok.2 (readExact_eq_ok.2 ⟨hlength, rfl⟩), ?_⟩
    refine Except.bind_eq_ok.2 ⟨(), demand_eq_ok.2 hgreets, ?_⟩
    refine Except.bind_eq_ok.2 ⟨_, fallible_eq_ok.2 hhead, ?_⟩
    refine Except.bind_eq_ok.2 ⟨(), demand_eq_ok.2 ((Tag.command.flag_command long).2 rfl), ?_⟩
    refine Except.bind_eq_ok.2 ⟨_, fallible_eq_ok.2 hbody, ?_⟩
    exact Except.bind_eq_ok.2 ⟨id, readyCommand_iff.2 ⟨fs, hfs⟩, rfl⟩
  · intro h
    have hends := handshake_ends kind s
    rw [h] at hends
    exact hends rfl

end Jupyter.Transport

end Rnx
