import Rnx.Jupyter.Peer
import Rnx.Lib.BigEndian
import Rnx.Lib.Outcome

/-!
# Reading a message

`header`, `body` and `message_with` of `transport.rs`: the frames of a multipart message are taken
off a connection one after the other, commands between them are answered, and a command in front of
them is a message of its own without parts.  A connection is here the bytes that arrive before it
ends or the deadline passes, however they were split; what an allocation could refuse is left out.

`Reads` says which bytes are a message.  Reading accepts these and no others.
-/

namespace Rnx

namespace Jupyter.Transport

/-! ## The reader -/

/-- `read_u8`. -/
def readU8 : Bytes → Except String (UInt8 × Bytes)
  | [] => .error "early eof"
  | b :: s => .ok (b, s)

/-- `read_exact`. -/
def readExact (n : Nat) (s : Bytes) : Except String (Bytes × Bytes) :=
  if n ≤ s.length then .ok (s.take n, s.drop n) else .error "early eof"

/-- The length that follows a flag, which is checked first. -/
def lengthAfter (flag : UInt8) (s : Bytes) : Except String ((UInt8 × Nat) × Bytes) :=
  if flag &&& 0xf8 ≠ 0 ∨ flag &&& 5 = 5 then .error "invalid flags"
  else if flag &&& 2 ≠ 0 then do
    let (n, s) ← readExact 8 s
    .ok ((flag, BigEndian.ofBytes n), s)
  else do
    let (n, s) ← readU8 s
    .ok ((flag, n.toNat), s)

/-- `header`. -/
def header (s : Bytes) : Except String ((UInt8 × Nat) × Bytes) := do
  let (flag, s) ← readU8 s
  lengthAfter flag s

/-- `body`. -/
def body (n cap : Nat) (s : Bytes) : Except String (Bytes × Bytes) :=
  if cap < n then .error "declared length exceeds cap" else readExact n s

/-- `Message`: the parts, and the permits that are held for them. -/
structure Message where
  parts : List Bytes
  credits : List Nat
deriving DecidableEq, Repr

variable {σ : Type} (enqueue : σ → Wire → Except String σ)

/-- What becomes of the peer when a command is answered. -/
def answer (command : Bytes) (peer : σ) : Except String σ := do
  match ← heartbeat command with
  | some wire => enqueue peer wire
  | none => .ok peer

lemma readU8_eq_ok {s s' : Bytes} {b : UInt8} : readU8 s = .ok (b, s') ↔ s = b :: s' := by
  cases s with
  | nil => simp [readU8]
  | cons c s => simp [readU8]

lemma readExact_eq_ok {n : Nat} {s s' b : Bytes} :
    readExact n s = .ok (b, s') ↔ b.length = n ∧ s = b ++ s' := by
  unfold readExact
  constructor
  · intro h
    split_ifs at h with hle
    obtain ⟨rfl, rfl⟩ := Prod.mk.inj (Except.ok.inj h)
    exact ⟨List.length_take_of_le hle, (List.take_append_drop n s).symm⟩
  · rintro ⟨rfl, rfl⟩
    rw [if_pos (by rw [List.length_append]; omega), List.take_left' rfl, List.drop_left' rfl]

/-! ## Headers -/

/-- What a frame is: the last part of a message, a part that others follow, or a command. -/
inductive Tag
  | last | more | command
deriving DecidableEq, Repr

/-- The flag of a frame, with a long length or a short one. -/
def Tag.flag (long : Bool) : Tag → UInt8
  | .last => if long = true then 2 else 0
  | .more => if long = true then 3 else 1
  | .command => if long = true then 6 else 4

/-- A length in its form. -/
def lengthBytes (long : Bool) (n : Nat) : Bytes :=
  if long = true then BigEndian.toBytes 8 n else [UInt8.ofNat n]

/-- A length fits its form. -/
def FitsForm (long : Bool) (n : Nat) : Prop := if long = true then n < 256 ^ 8 else n < 256

/-- No reserved bit is set. -/
lemma lt_of_reserved {flag : UInt8} (h : flag &&& 0xf8 = 0) : flag.toNat < 8 := by
  have hflag := flag.toNat_lt
  have hbits : flag.toNat &&& 0xf8 = 0 := by
    rw [← UInt8.toNat_inj, UInt8.toNat_and] at h
    exact h
  have hhigh : flag.toNat / 8 % 32 = 0 := calc
    flag.toNat / 8 % 32 = flag.toNat >>> 3 &&& 31 := by
      rw [Nat.shiftRight_eq_div_pow, ← Nat.and_two_pow_sub_one_eq_mod _ 5]
    _ = (flag.toNat &&& 0xf8) >>> 3 := (Nat.shiftRight_and_distrib (b := 0xf8)).symm
    _ = 0 := by rw [hbits, Nat.zero_shiftRight]
  omega

/-- The flags that pass the check, and what is read off them. -/
lemma flag_iff (flag : UInt8) : ¬(flag &&& 0xf8 ≠ 0 ∨ flag &&& 5 = 5) ↔
    ∃ (tag : Tag) (long : Bool), flag = tag.flag long := by
  constructor
  · intro h
    obtain ⟨hreserved, hboth⟩ := not_or.1 h
    have hall : ∀ n < 8, UInt8.ofNat n &&& 5 ≠ 5 → UInt8.ofNat n = 0 ∨ UInt8.ofNat n = 1 ∨
        UInt8.ofNat n = 4 ∨ UInt8.ofNat n = 2 ∨ UInt8.ofNat n = 3 ∨ UInt8.ofNat n = 6 := by
      decide
    have hflag := hall flag.toNat (lt_of_reserved (not_not.1 hreserved))
    rw [UInt8.ofNat_toNat] at hflag
    obtain rfl | rfl | rfl | rfl | rfl | rfl := hflag hboth
    exacts [⟨.last, false, rfl⟩, ⟨.more, false, rfl⟩, ⟨.command, false, rfl⟩, ⟨.last, true, rfl⟩,
      ⟨.more, true, rfl⟩, ⟨.command, true, rfl⟩]
  · rintro ⟨tag, long, rfl⟩
    cases tag <;> cases long <;> decide

lemma Tag.flag_long (tag : Tag) (long : Bool) : (tag.flag long &&& 2 ≠ 0) ↔ long = true := by
  cases tag <;> cases long <;> decide

lemma Tag.flag_command (tag : Tag) (long : Bool) : (tag.flag long &&& 4 ≠ 0) ↔ tag = .command := by
  cases tag <;> cases long <;> decide

lemma Tag.flag_more (tag : Tag) (long : Bool) : (tag.flag long &&& 1 = 0) ↔ tag ≠ .more := by
  cases tag <;> cases long <;> decide

lemma lengthAfter_eq_ok {flag flag' : UInt8} {n : Nat} {s s' : Bytes} :
    lengthAfter flag s = .ok ((flag', n), s') ↔ flag' = flag ∧
      ∃ (tag : Tag) (long : Bool), flag = tag.flag long ∧ FitsForm long n ∧
        s = lengthBytes long n ++ s' := by
  unfold lengthAfter
  constructor
  · intro h
    split_ifs at h with hflag hlong
    · obtain ⟨tag, long, rfl⟩ := (flag_iff flag).1 hflag
      obtain rfl := (tag.flag_long long).1 hlong
      obtain ⟨⟨b, s₁⟩, hread, heq⟩ := Except.bind_eq_ok.1 h
      obtain ⟨hflag', rfl⟩ := Prod.mk.inj (Except.ok.inj heq)
      obtain ⟨rfl, rfl⟩ := Prod.mk.inj hflag'
      obtain ⟨hlength, rfl⟩ := readExact_eq_ok.1 hread
      refine ⟨rfl, tag, true, rfl, ?_, ?_⟩
      · have hlt := BigEndian.ofBytes_lt b
        rw [hlength] at hlt
        exact hlt
      · rw [lengthBytes, if_pos rfl, ← hlength, BigEndian.toBytes_ofBytes]
    · obtain ⟨tag, long, rfl⟩ := (flag_iff flag).1 hflag
      obtain rfl := Bool.eq_false_iff.2 fun hl => hlong ((tag.flag_long long).2 hl)
      obtain ⟨⟨b, s₁⟩, hread, heq⟩ := Except.bind_eq_ok.1 h
      obtain ⟨hflag', rfl⟩ := Prod.mk.inj (Except.ok.inj heq)
      obtain ⟨rfl, rfl⟩ := Prod.mk.inj hflag'
      obtain rfl := readU8_eq_ok.1 hread
      refine ⟨rfl, tag, false, rfl, b.toNat_lt, ?_⟩
      rw [lengthBytes, if_neg Bool.false_ne_true, UInt8.ofNat_toNat]
      rfl
  · rintro ⟨rfl, tag, long, rfl, hfits, rfl⟩
    rw [if_neg ((flag_iff _).2 ⟨tag, long, rfl⟩)]
    cases long with
    | true =>
      rw [if_pos ((tag.flag_long true).2 rfl)]
      refine Except.bind_eq_ok.2 ⟨(BigEndian.toBytes 8 n, s'), readExact_eq_ok.2
        ⟨BigEndian.length_toBytes 8 n, rfl⟩, ?_⟩
      simp only
      rw [BigEndian.ofBytes_toBytes hfits]
    | false =>
      rw [if_neg fun h => Bool.false_ne_true ((tag.flag_long false).1 h)]
      refine Except.bind_eq_ok.2 ⟨(UInt8.ofNat n, s'), readU8_eq_ok.2 rfl, ?_⟩
      have hn : (UInt8.ofNat n).toNat = n := by
        rw [UInt8.toNat_ofNat']
        exact Nat.mod_eq_of_lt hfits
      simp only
      rw [hn]

/-- A frame. -/
def frameBytes (tag : Tag) (long : Bool) (payload : Bytes) : Bytes :=
  tag.flag long :: (lengthBytes long payload.length ++ payload)

lemma lengthAfter_shorter {flag : UInt8} {p : UInt8 × Nat} {s s' : Bytes}
    (h : lengthAfter flag s = .ok (p, s')) : s'.length < s.length := by
  obtain ⟨-, tag, long, -, -, rfl⟩ := lengthAfter_eq_ok.1 h
  rw [List.length_append, lengthBytes]
  split_ifs
  · rw [BigEndian.length_toBytes]
    omega
  · rw [List.length_singleton]
    omega

lemma body_eq_ok {n cap : Nat} {s s' b : Bytes} :
    body n cap s = .ok (b, s') ↔ n ≤ cap ∧ b.length = n ∧ s = b ++ s' := by
  unfold body
  split_ifs with hcap
  · exact iff_of_false (fun h => by cases h) fun h => absurd h.1 (Nat.not_le.2 hcap)
  · rw [readExact_eq_ok]
    exact (and_iff_right (Nat.le_of_not_lt hcap)).symm

/-! ## The loop -/

/-- The next flag and length: of a frame whose flag has been read, or of a whole frame. -/
def nextHeader (first : Option UInt8) (s : Bytes) : Except String ((UInt8 × Nat) × Bytes) :=
  match first with
  | some flag => lengthAfter flag s
  | none => header s

lemma nextHeader_shorter {first : Option UInt8} {p : UInt8 × Nat} {s s' : Bytes}
    (h : nextHeader first s = .ok (p, s')) : s'.length < s.length := by
  cases first with
  | some flag => exact lengthAfter_shorter h
  | none =>
    obtain ⟨⟨flag, s₁⟩, hread, h⟩ := Except.bind_eq_ok.1 h
    obtain rfl := readU8_eq_ok.1 hread
    exact (lengthAfter_shorter h).trans (Nat.lt_succ_self _)

lemma body_shorter {n cap : Nat} {s s' b : Bytes} (h : body n cap s = .ok (b, s')) :
    s'.length ≤ s.length := by
  obtain ⟨-, -, rfl⟩ := body_eq_ok.1 h
  rw [List.length_append]
  omega

/-- The loop of `message_with`, with the parts and their total so far. -/
def messageLoop (first : Option UInt8) (m : Message) (total : Nat) (peer : σ) (s : Bytes) :
    Except String (Message × σ × Bytes) :=
  match _hhead : nextHeader first s with
  | .error e => .error e
  | .ok ((flag, n), s₁) =>
      if flag &&& 4 ≠ 0 then
        match _hbody : body n 23 s₁ with
        | .error e => .error e
        | .ok (command, s₂) =>
            match answer enqueue command peer with
            | .error e => .error e
            | .ok peer =>
                if m.parts = [] then .ok (m, peer, s₂) else messageLoop none m total peer s₂
      else if mebi < total then .error "attempt to subtract with overflow"
        else if m.parts.length = 32 ∨ mebi - total < n then .error "multipart cap"
        else
          match _hbody : body n (mebi - total) s₁ with
          | .error e => .error e
          | .ok (b, s₂) =>
              let m' : Message := ⟨m.parts ++ [b], m.credits ++ [n]⟩
              if flag &&& 1 = 0 then .ok (m', peer, s₂)
              else messageLoop none m' (total + n) peer s₂
termination_by s.length
decreasing_by
  · exact (body_shorter _hbody).trans_lt (nextHeader_shorter _hhead)
  · exact (body_shorter _hbody).trans_lt (nextHeader_shorter _hhead)

/-- `message_with`. -/
def messageWith (peer : σ) (s : Bytes) : Except String (Message × σ × Bytes) := do
  let (first, s) ← readU8 s
  messageLoop enqueue (some first) ⟨[], []⟩ 0 peer s

/-! ## What a message is -/

/-- The bytes of a message behind the parts that were read, what it is read as, and what is left. -/
inductive Reads : List Bytes → σ → Bytes → List Bytes → σ → Bytes → Prop
  | greeting {long : Bool} {command rest : Bytes} {peer peer' : σ}
      (hform : FitsForm long command.length) (hlen : command.length ≤ 23)
      (hanswer : answer enqueue command peer = .ok peer') :
      Reads [] peer (frameBytes .command long command ++ rest) [] peer' rest
  | command {parts out : List Bytes} {long : Bool} {command s rest : Bytes} {peer peer' peer'' : σ}
      (hparts : parts ≠ []) (hform : FitsForm long command.length) (hlen : command.length ≤ 23)
      (hanswer : answer enqueue command peer = .ok peer')
      (hrest : Reads parts peer' s out peer'' rest) :
      Reads parts peer (frameBytes .command long command ++ s) out peer'' rest
  | last {parts : List Bytes} {long : Bool} {part rest : Bytes} {peer : σ}
      (hform : FitsForm long part.length) (hcount : parts.length < 32)
      (htotal : (parts.map List.length).sum + part.length ≤ mebi) :
      Reads parts peer (frameBytes .last long part ++ rest) (parts ++ [part]) peer rest
  | more {parts out : List Bytes} {long : Bool} {part s rest : Bytes} {peer peer' : σ}
      (hform : FitsForm long part.length) (hcount : parts.length < 32)
      (htotal : (parts.map List.length).sum + part.length ≤ mebi)
      (hrest : Reads (parts ++ [part]) peer s out peer' rest) :
      Reads parts peer (frameBytes .more long part ++ s) out peer' rest

/-- The permits and the total that go with the parts so far. -/
def Message.holding (parts : List Bytes) : Message := ⟨parts, parts.map List.length⟩

/-- The bytes held for some parts. -/
def partBytes (parts : List Bytes) : Nat := (parts.map List.length).sum

variable {enqueue} {parts out : List Bytes} {peer peer' : σ} {s s' rest : Bytes}

lemma nextHeader_eq_ok {flag : UInt8} {n : Nat} :
    nextHeader none s = .ok ((flag, n), s') ↔
      ∃ (tag : Tag) (long : Bool), flag = tag.flag long ∧ FitsForm long n ∧
        s = flag :: (lengthBytes long n ++ s') := by
  constructor
  · intro h
    obtain ⟨⟨first, s₁⟩, hread, h⟩ := Except.bind_eq_ok.1 h
    obtain rfl := readU8_eq_ok.1 hread
    obtain ⟨rfl, tag, long, hflag, hfits, rfl⟩ := lengthAfter_eq_ok.1 h
    exact ⟨tag, long, hflag, hfits, rfl⟩
  · rintro ⟨tag, long, hflag, hfits, rfl⟩
    exact Except.bind_eq_ok.2 ⟨(flag, _), readU8_eq_ok.2 rfl,
      lengthAfter_eq_ok.2 ⟨rfl, tag, long, hflag, hfits, rfl⟩⟩

/-- The first flag is read before the loop, the others in it. -/
lemma messageWith_eq (peer : σ) (s : Bytes) :
    messageWith enqueue peer s = messageLoop enqueue none ⟨[], []⟩ 0 peer s := by
  cases s with
  | nil =>
    rw [messageLoop]
    rfl
  | cons flag s =>
    show messageLoop enqueue (some flag) ⟨[], []⟩ 0 peer s = _
    rw [messageLoop, messageLoop]
    rfl

lemma partBytes_append (parts : List Bytes) (part : Bytes) :
    partBytes (parts ++ [part]) = partBytes parts + part.length := by
  simp [partBytes]

lemma holding_append (parts : List Bytes) (part : Bytes) :
    Message.holding (parts ++ [part]) =
      ⟨(Message.holding parts).parts ++ [part], (Message.holding parts).credits ++ [part.length]⟩ := by
  simp [Message.holding]

/-- Reading takes messages and nothing else. -/
lemma messageLoop_sound {m : Message} (hle : parts.length ≤ 32)
    (h : messageLoop enqueue none (.holding parts) (partBytes parts) peer s = .ok (m, peer', rest)) :
    ∃ out, m = .holding out ∧ Reads enqueue parts peer s out peer' rest := by
  induction hn : s.length using Nat.strong_induction_on generalizing parts peer s with
  | _ n ih =>
    rw [messageLoop] at h
    split at h
    · cases h
    · rename_i flag len s₁ hhead
      have hshorter := nextHeader_shorter hhead
      obtain ⟨tag, long, rfl, hform, rfl⟩ := nextHeader_eq_ok.1 hhead
      by_cases hcommand : tag = .command
      · rw [if_pos ((tag.flag_command long).2 hcommand)] at h
        obtain rfl := hcommand
        split at h
        · cases h
        · rename_i command s₂ hbody
          have hless := (body_shorter hbody).trans_lt hshorter
          obtain ⟨hlen, rfl, rfl⟩ := body_eq_ok.1 hbody
          rw [← List.append_assoc, ← List.cons_append]
          split at h
          · cases h
          · rename_i next hanswer
            by_cases hparts : (Message.holding parts).parts = []
            · rw [if_pos hparts] at h
              obtain ⟨rfl, hrest⟩ := Prod.mk.inj (Except.ok.inj h)
              obtain ⟨rfl, rfl⟩ := Prod.mk.inj hrest
              obtain rfl : parts = [] := hparts
              exact ⟨[], rfl, .greeting hform hlen hanswer⟩
            · rw [if_neg hparts] at h
              obtain ⟨out, hm, hreads⟩ := ih _ (hn ▸ hless) hle h rfl
              exact ⟨out, hm, .command hparts hform hlen hanswer hreads⟩
      · rw [if_neg fun hc => hcommand ((tag.flag_command long).1 hc)] at h
        by_cases hover : mebi < partBytes parts
        · rw [if_pos hover] at h
          cases h
        rw [if_neg hover] at h
        by_cases hcap : (Message.holding parts).parts.length = 32 ∨ mebi - partBytes parts < len
        · rw [if_pos hcap] at h
          cases h
        rw [if_neg hcap] at h
        split at h
        · cases h
        · rename_i part s₂ hbody
          have hless := (body_shorter hbody).trans_lt hshorter
          obtain ⟨hlen, rfl, rfl⟩ := body_eq_ok.1 hbody
          rw [← List.append_assoc, ← List.cons_append]
          obtain ⟨hfull, hroom⟩ := not_or.1 hcap
          have hcount : parts.length < 32 := lt_of_le_of_ne hle hfull
          have htotal : partBytes parts + part.length ≤ mebi := by omega
          by_cases hmore : tag = .more
          · rw [if_neg fun hm => (tag.flag_more long).1 hm hmore] at h
            obtain rfl := hmore
            rw [← holding_append, ← partBytes_append] at h
            obtain ⟨out, hm, hreads⟩ := ih _ (hn ▸ hless)
              (by rw [List.length_append]; exact hcount) h rfl
            exact ⟨out, hm, .more hform hcount htotal hreads⟩
          · rw [if_pos ((tag.flag_more long).2 hmore), ← holding_append] at h
            obtain ⟨rfl, hrest⟩ := Prod.mk.inj (Except.ok.inj h)
            obtain ⟨rfl, rfl⟩ := Prod.mk.inj hrest
            obtain rfl : tag = .last := by
              cases tag with
              | last => rfl
              | more => exact absurd rfl hmore
              | command => exact absurd rfl hcommand
            exact ⟨_, rfl, .last hform hcount htotal⟩

/-- The header and the payload of a frame are read off its bytes. -/
lemma frame_read (tag : Tag) (cap : Nat) {long : Bool} {payload : Bytes}
    (hform : FitsForm long payload.length) (hcap : payload.length ≤ cap) (rest : Bytes) :
    nextHeader none (frameBytes tag long payload ++ rest) =
        .ok ((tag.flag long, payload.length), payload ++ rest) ∧
      body payload.length cap (payload ++ rest) = .ok (payload, rest) :=
  ⟨nextHeader_eq_ok.2 ⟨tag, long, rfl, hform, by simp [frameBytes]⟩,
    body_eq_ok.2 ⟨hcap, rfl, rfl⟩⟩

/-- The loop at a command. -/
lemma messageLoop_command {long : Bool} {command : Bytes} {m : Message} {total : Nat}
    (hform : FitsForm long command.length) (hlen : command.length ≤ 23)
    (hanswer : answer enqueue command peer = .ok peer') :
    messageLoop enqueue none m total peer (frameBytes .command long command ++ rest) =
      if m.parts = [] then .ok (m, peer', rest) else messageLoop enqueue none m total peer' rest := by
  obtain ⟨hhead, hbody⟩ := frame_read .command 23 hform hlen rest
  rw [messageLoop]
  split
  · rename_i e he
    cases hhead.symm.trans he
  · rename_i flag n s₁ he
    obtain ⟨hp, rfl⟩ := Prod.mk.inj (Except.ok.inj (hhead.symm.trans he))
    obtain ⟨rfl, rfl⟩ := Prod.mk.inj hp
    rw [if_pos ((Tag.command.flag_command long).2 rfl)]
    split
    · rename_i e he
      cases hbody.symm.trans he
    · rename_i b s₂ he
      obtain ⟨rfl, rfl⟩ := Prod.mk.inj (Except.ok.inj (hbody.symm.trans he))
      rw [hanswer]

/-- The loop at a part. -/
lemma messageLoop_part {tag : Tag} {long : Bool} {part : Bytes} (htag : tag ≠ .command)
    (hform : FitsForm long part.length) (hcount : parts.length < 32)
    (htotal : partBytes parts + part.length ≤ mebi) :
    messageLoop enqueue none (.holding parts) (partBytes parts) peer
        (frameBytes tag long part ++ rest) =
      if tag = .more then messageLoop enqueue none (.holding (parts ++ [part]))
        (partBytes (parts ++ [part])) peer rest
      else .ok (.holding (parts ++ [part]), peer, rest) := by
  obtain ⟨hhead, hbody⟩ :=
    frame_read tag (mebi - partBytes parts) hform (by omega) rest
  rw [messageLoop]
  split
  · rename_i e he
    cases hhead.symm.trans he
  · rename_i flag n s₁ he
    obtain ⟨hp, rfl⟩ := Prod.mk.inj (Except.ok.inj (hhead.symm.trans he))
    obtain ⟨rfl, rfl⟩ := Prod.mk.inj hp
    have hroom : ¬((Message.holding parts).parts.length = 32 ∨ mebi - partBytes parts < part.length) := by
      rintro (hfull | hover)
      · exact absurd hfull (Nat.ne_of_lt hcount)
      · omega
    rw [if_neg fun hc => htag ((tag.flag_command long).1 hc), if_neg (by omega), if_neg hroom]
    split
    · rename_i e he
      cases hbody.symm.trans he
    · rename_i b s₂ he
      obtain ⟨rfl, rfl⟩ := Prod.mk.inj (Except.ok.inj (hbody.symm.trans he))
      dsimp only
      rw [← holding_append, ← partBytes_append]
      by_cases hmore : tag = .more
      · rw [if_neg fun hm => (tag.flag_more long).1 hm hmore, if_pos hmore]
      · rw [if_pos ((tag.flag_more long).2 hmore), if_neg hmore]

/-- Reading takes every message. -/
lemma Reads.messageLoop (h : Reads enqueue parts peer s out peer' rest) :
    messageLoop enqueue none (.holding parts) (partBytes parts) peer s =
      .ok (.holding out, peer', rest) := by
  induction h with
  | greeting hform hlen hanswer => exact messageLoop_command hform hlen hanswer
  | command hparts hform hlen hanswer hrest ih =>
    rw [messageLoop_command hform hlen hanswer,
      if_neg (show (Message.holding _).parts ≠ [] from hparts)]
    exact ih
  | last hform hcount htotal => exact messageLoop_part (by decide) hform hcount htotal
  | more hform hcount htotal hrest ih =>
    rw [messageLoop_part (by decide) hform hcount htotal]
    exact ih

/-- Reading takes exactly the messages. -/
lemma messageWith_iff {m : Message} : messageWith enqueue peer s = .ok (m, peer', rest) ↔
    ∃ out, m = .holding out ∧ Reads enqueue [] peer s out peer' rest := by
  rw [messageWith_eq]
  constructor
  · exact messageLoop_sound (Nat.zero_le _)
  · rintro ⟨out, rfl, hreads⟩
    exact hreads.messageLoop

/-- What follows a message does not matter to it. -/
lemma Reads.append (h : Reads enqueue parts peer s out peer' rest) (t : Bytes) :
    Reads enqueue parts peer (s ++ t) out peer' (rest ++ t) := by
  induction h with
  | greeting hform hlen hanswer =>
    rw [List.append_assoc]
    exact .greeting hform hlen hanswer
  | command hparts hform hlen hanswer hrest ih =>
    rw [List.append_assoc]
    exact .command hparts hform hlen hanswer ih
  | last hform hcount htotal =>
    rw [List.append_assoc]
    exact .last hform hcount htotal
  | more hform hcount htotal hrest ih =>
    rw [List.append_assoc]
    exact .more hform hcount htotal ih

/-! ## Frames and heartbeats -/

/-- A frame as it is sent. -/
structure Frame where
  tag : Tag
  long : Bool
  payload : Bytes
deriving DecidableEq, Repr

namespace Frame

/-- The bytes of a frame. -/
def bytes (f : Frame) : Bytes := frameBytes f.tag f.long f.payload

/-- The length of a frame fits its form. -/
def Fits (f : Frame) : Prop := FitsForm f.long f.payload.length

end Frame

/-- The parts among some frames. -/
def payloads (fs : List Frame) : List Bytes :=
  (fs.filter (·.tag ≠ .command)).map Frame.payload

/-- The commands among some frames. -/
def commands (fs : List Frame) : List Bytes := (fs.filter (·.tag = .command)).map Frame.payload

/-- A heartbeat: a PING with its time to live and context, or a PONG. -/
inductive Beat
  | ping (ttl context : Bytes)
  | pong (context : Bytes)
deriving DecidableEq, Repr

namespace Beat

/-- The command of a heartbeat. -/
def command : Beat → Bytes
  | .ping ttl context => Transport.ping ++ (ttl ++ context)
  | .pong context => Transport.pong ++ context

/-- What may be sent. -/
def Valid : Beat → Prop
  | .ping ttl context => ttl.length = 2 ∧ context.length ≤ 16
  | .pong context => context.length ≤ 16

/-- The frame a PING is answered with: a PONG with its context. -/
def reply : Beat → Option Wire
  | .ping ttl context => some
      ⟨Frame.bytes ⟨.command, false, (Beat.pong context).command⟩,
        (Beat.ping ttl context).command.length⟩
  | .pong _ => none

end Beat

lemma ping_not_prefix (context : Bytes) :
    Transport.ping.isPrefixOf (Transport.pong ++ context) = false := by
  simp [Transport.ping, Transport.pong, List.isPrefixOf]

lemma Beat.length_command (beat : Beat) : beat.command.length =
    match beat with
    | .ping ttl context => 5 + (ttl.length + context.length)
    | .pong context => 5 + context.length := by
  cases beat with
  | ping ttl context => rw [command, List.length_append, List.length_append]; rfl
  | pong context => rw [command, List.length_append]; rfl

/-- A PING is answered with a PONG, a PONG with nothing, and anything else is refused. -/
lemma heartbeat_iff {command : Bytes} {o : Option Wire} :
    heartbeat command = .ok o ↔
      ∃ beat : Beat, beat.Valid ∧ command = beat.command ∧ o = beat.reply := by
  unfold heartbeat
  constructor
  · intro h
    split_ifs at h with hping hpong
    · obtain ⟨hstart, hlow, hhigh⟩ := hping
      obtain ⟨t, rfl⟩ := List.isPrefixOf_iff_prefix.1 hstart
      rw [List.length_append, show Transport.ping.length = 5 from rfl] at hlow hhigh
      refine ⟨.ping (t.take 2) (t.drop 2), ⟨List.length_take_of_le (by omega), ?_⟩, ?_, ?_⟩
      · rw [List.length_drop]
        omega
      · rw [Beat.command, List.take_append_drop]
      · obtain rfl := Except.ok.inj h
        rw [Beat.reply, Beat.command, Beat.command, List.take_append_drop]
        have hdrop : (Transport.ping ++ t).drop 7 = t.drop 2 := rfl
        have hlength : (Transport.ping ++ t).length - 2 = (Transport.pong ++ t.drop 2).length := by
          rw [List.length_append, List.length_append, List.length_drop]
          show 5 + t.length - 2 = 5 + (t.length - 2)
          omega
        rw [hdrop, hlength]
        rfl
    · obtain ⟨hstart, hlow, hhigh⟩ := hpong
      obtain ⟨t, rfl⟩ := List.isPrefixOf_iff_prefix.1 hstart
      rw [List.length_append, show Transport.pong.length = 5 from rfl] at hhigh
      exact ⟨.pong t, show t.length ≤ 16 by omega, rfl, (Except.ok.inj h).symm⟩
  · rintro ⟨beat, hvalid, rfl, rfl⟩
    have hlength := beat.length_command
    cases beat with
    | ping ttl context =>
      obtain ⟨httl, hcontext⟩ := hvalid
      dsimp only at hlength
      have hstart : Transport.ping.isPrefixOf (Beat.ping ttl context).command = true :=
        List.isPrefixOf_iff_prefix.2 (List.prefix_append _ _)
      rw [if_pos ⟨hstart, by omega, by omega⟩]
      have hdrop : (Beat.ping ttl context).command.drop 7 = context := by
        rw [Beat.command, ← List.append_assoc]
        exact List.drop_left' (by rw [List.length_append, httl]; rfl)
      have hpong := (Beat.pong context).length_command
      dsimp only at hpong
      rw [hdrop, show (Beat.ping ttl context).command.length - 2 = (Beat.pong context).command.length
        by omega]
      rfl
    | pong context =>
      have hcontext : context.length ≤ 16 := hvalid
      dsimp only at hlength
      have hstart : Transport.pong.isPrefixOf (Beat.pong context).command = true :=
        List.isPrefixOf_iff_prefix.2 (List.prefix_append _ _)
      have hnot : Transport.ping.isPrefixOf (Beat.pong context).command ≠ true := by
        rw [Beat.command, ping_not_prefix]
        exact Bool.false_ne_true
      rw [if_neg fun h => hnot h.1, if_pos ⟨hstart, by omega, by omega⟩]
      rfl

lemma Beat.command_le {beat : Beat} (h : beat.Valid) : beat.command.length ≤ 23 := by
  have hlength := beat.length_command
  cases beat with
  | ping ttl context =>
    obtain ⟨httl, hcontext⟩ := h
    dsimp only at hlength
    omega
  | pong context =>
    have hcontext : context.length ≤ 16 := h
    dsimp only at hlength
    omega

/-- Answering a heartbeat. -/
lemma answer_iff {command : Bytes} : answer enqueue command peer = .ok peer' ↔
    ∃ beat : Beat, beat.Valid ∧ command = beat.command ∧
      beat.reply.toList.foldlM enqueue peer = .ok peer' := by
  unfold answer
  rw [Except.bind_eq_ok]
  constructor
  · rintro ⟨o, ho, h⟩
    obtain ⟨beat, hvalid, rfl, rfl⟩ := heartbeat_iff.1 ho
    refine ⟨beat, hvalid, rfl, ?_⟩
    cases hreply : beat.reply with
    | none =>
      rw [hreply] at h
      exact h
    | some wire =>
      rw [hreply] at h
      exact Except.bind_eq_ok.2 ⟨peer', h, rfl⟩
  · rintro ⟨beat, hvalid, rfl, h⟩
    refine ⟨beat.reply, heartbeat_iff.2 ⟨beat, hvalid, rfl, rfl⟩, ?_⟩
    cases hreply : beat.reply with
    | none =>
      rw [hreply] at h
      exact h
    | some wire =>
      rw [hreply] at h
      obtain ⟨p, hp, h⟩ := Except.bind_eq_ok.1 h
      obtain rfl := Except.ok.inj h
      exact hp

/-! ## Messages as frames -/

/-- Only the last frame says that it is the last part. -/
def LastOnly : List Frame → Prop
  | [] => False
  | [f] => f.tag = .last
  | f :: g :: fs => f.tag ≠ .last ∧ LastOnly (g :: fs)

/-- The order of the frames behind some parts: a command alone where there are none, or parts up to
the last one, with commands behind the first. -/
def Ordered (parts : List Bytes) (fs : List Frame) : Prop :=
  (parts = [] ∧ ∃ f, fs = [f] ∧ f.tag = .command) ∨
    (LastOnly fs ∧ (parts = [] → ∀ f ∈ fs.head?, f.tag ≠ .command))

/-- Some frames and heartbeats are what is behind some parts of a message, which is `out` in the
end; the peer takes the answers one after the other. -/
structure Behind (enqueue : σ → Wire → Except String σ) (parts : List Bytes) (fs : List Frame)
    (beats : List Beat) (out : List Bytes) (peer peer' : σ) : Prop where
  fits : ∀ f ∈ fs, f.Fits
  ordered : Ordered parts fs
  commands_eq : commands fs = beats.map Beat.command
  valid : ∀ beat ∈ beats, beat.Valid
  answered : (beats.filterMap Beat.reply).foldlM enqueue peer = .ok peer'
  out_eq : out = parts ++ payloads fs
  count_le : out.length ≤ 32
  total_le : partBytes out ≤ mebi

lemma lastOnly_cons {f : Frame} {fs : List Frame} (h : LastOnly fs) :
    LastOnly (f :: fs) ↔ f.tag ≠ .last := by
  cases fs with
  | nil => exact h.elim
  | cons g fs => exact and_iff_left h

lemma replies_cons (beat : Beat) (beats : List Beat) :
    ((beat :: beats).filterMap Beat.reply).foldlM enqueue peer =
      beat.reply.toList.foldlM enqueue peer >>= fun peer =>
        (beats.filterMap Beat.reply).foldlM enqueue peer := by
  rw [List.filterMap_cons]
  cases beat.reply with
  | none => rfl
  | some wire =>
    rw [← List.foldlM_append]
    rfl

lemma commands_cons {f : Frame} (h : f.tag = .command) (fs : List Frame) :
    commands (f :: fs) = f.payload :: commands fs ∧ payloads (f :: fs) = payloads fs := by
  simp [commands, payloads, h]

lemma payloads_cons {f : Frame} (h : f.tag ≠ .command) (fs : List Frame) :
    commands (f :: fs) = commands fs ∧ payloads (f :: fs) = f.payload :: payloads fs := by
  simp [commands, payloads, h]

/-- What is read is behind the parts as frames. -/
lemma Reads.behind (h : Reads enqueue parts peer s out peer' rest) :
    ∃ fs beats, s = fs.flatMap Frame.bytes ++ rest ∧
      Behind enqueue parts fs beats out peer peer' := by
  induction h with
  | @greeting long command rest peer peer' hform hlen hanswer =>
    obtain ⟨beat, hvalid, rfl, hreply⟩ := answer_iff.1 hanswer
    refine ⟨[⟨.command, long, beat.command⟩], [beat], by simp [Frame.bytes], ?_⟩
    refine ⟨?_, .inl ⟨rfl, _, rfl, rfl⟩, by simp [commands], ?_, ?_, by simp [payloads], ?_, ?_⟩
    · exact List.forall_mem_singleton.2 hform
    · exact List.forall_mem_singleton.2 hvalid
    · rw [replies_cons, hreply]
      rfl
    · exact Nat.zero_le _
    · exact Nat.zero_le _
  | @command parts out long command s rest peer peer' peer'' hparts hform hlen hanswer hrest ih =>
    obtain ⟨beat, hvalid, rfl, hreply⟩ := answer_iff.1 hanswer
    obtain ⟨fs, beats, rfl, hbehind⟩ := ih
    obtain ⟨hcommands, hpayloads⟩ :=
      commands_cons (f := ⟨.command, long, beat.command⟩) rfl fs
    have hordered := (hbehind.ordered.resolve_left fun h => hparts h.1).1
    refine ⟨⟨.command, long, beat.command⟩ :: fs, beat :: beats, by simp [Frame.bytes], ?_⟩
    refine ⟨List.forall_mem_cons.2 ⟨hform, hbehind.fits⟩,
      .inr ⟨(lastOnly_cons hordered).2 nofun, fun h => absurd h hparts⟩, ?_,
      List.forall_mem_cons.2 ⟨hvalid, hbehind.valid⟩, ?_, ?_, hbehind.count_le, hbehind.total_le⟩
    · rw [hcommands, hbehind.commands_eq]
      rfl
    · rw [replies_cons, hreply]
      exact hbehind.answered
    · rw [hpayloads]
      exact hbehind.out_eq
  | @last parts long part rest peer hform hcount htotal =>
    refine ⟨[⟨.last, long, part⟩], [], by simp [Frame.bytes], ?_⟩
    refine ⟨List.forall_mem_singleton.2 hform, .inr ⟨rfl, ?_⟩, by simp [commands],
      List.forall_mem_nil _, rfl, by simp [payloads], ?_, ?_⟩
    · intro _ f hf
      obtain rfl := Option.some.inj hf
      nofun
    · rw [List.length_append]
      exact hcount
    · rw [partBytes_append]
      exact htotal
  | @more parts out long part s rest peer peer' hform hcount htotal hrest ih =>
    obtain ⟨fs, beats, rfl, hbehind⟩ := ih
    obtain ⟨hcommands, hpayloads⟩ :=
      payloads_cons (f := ⟨.more, long, part⟩) nofun fs
    have hordered := (hbehind.ordered.resolve_left fun h => by simp at h).1
    refine ⟨⟨.more, long, part⟩ :: fs, beats, by simp [Frame.bytes], ?_⟩
    refine ⟨List.forall_mem_cons.2 ⟨hform, hbehind.fits⟩,
      .inr ⟨(lastOnly_cons hordered).2 nofun, ?_⟩, ?_, hbehind.valid, hbehind.answered, ?_,
      hbehind.count_le, hbehind.total_le⟩
    · intro _ f hf
      obtain rfl := Option.some.inj hf
      nofun
    · rw [hcommands]
      exact hbehind.commands_eq
    · rw [hpayloads, hbehind.out_eq]
      simp

/-- The parts so far are among the parts in the end. -/
lemma Behind.room {fs : List Frame} {beats : List Beat} {f : Frame}
    (h : Behind enqueue parts (f :: fs) beats out peer peer') (htag : f.tag ≠ .command) :
    parts.length < 32 ∧ partBytes parts + f.payload.length ≤ mebi := by
  obtain ⟨-, hpayloads⟩ := payloads_cons htag fs
  have hcount := h.count_le
  have htotal := h.total_le
  rw [h.out_eq, hpayloads] at hcount htotal
  rw [List.length_append, List.length_cons] at hcount
  simp only [partBytes, List.map_append, List.map_cons, List.sum_append, List.sum_cons] at htotal ⊢
  omega

/-- Frames that are behind the parts are read. -/
lemma Behind.reads {fs : List Frame} {beats : List Beat}
    (h : Behind enqueue parts fs beats out peer peer') (rest : Bytes) :
    Reads enqueue parts peer (fs.flatMap Frame.bytes ++ rest) out peer' rest := by
  induction fs generalizing parts beats peer with
  | nil =>
    rcases h.ordered with ⟨-, f, hf, -⟩ | ⟨hlast, -⟩
    · cases hf
    · exact hlast.elim
  | cons f fs ih =>
    obtain ⟨hfit, hfits⟩ := List.forall_mem_cons.1 h.fits
    obtain ⟨tag, long, payload⟩ := f
    rw [List.flatMap_cons, List.append_assoc]
    cases tag with
    | command =>
      obtain ⟨hcommands, hpayloads⟩ := commands_cons (f := ⟨.command, long, payload⟩) rfl fs
      have hbeats := h.commands_eq
      rw [hcommands] at hbeats
      cases beats with
      | nil => cases hbeats
      | cons beat beats =>
        obtain ⟨hpayload, hbeats⟩ := List.cons.inj hbeats
        obtain ⟨hvalid, hvalids⟩ := List.forall_mem_cons.1 h.valid
        have hanswered := h.answered
        rw [replies_cons] at hanswered
        obtain ⟨next, hnext, hanswered⟩ := Except.bind_eq_ok.1 hanswered
        have hanswer := answer_iff.2 ⟨beat, hvalid, hpayload, hnext⟩
        have hlen : payload.length ≤ 23 := by
          rw [show payload = beat.command from hpayload]
          exact Beat.command_le hvalid
        rcases h.ordered with ⟨rfl, g, hg, -⟩ | ⟨hlast, hhead⟩
        · obtain ⟨-, rfl⟩ := List.cons.inj hg
          have hout := h.out_eq
          rw [hpayloads] at hout
          obtain rfl : out = [] := hout
          obtain rfl : beats = [] := List.map_eq_nil_iff.1 hbeats.symm
          obtain rfl := Except.ok.inj hanswered
          exact .greeting hfit hlen hanswer
        · have hparts : parts ≠ [] := fun hp => hhead hp _ rfl rfl
          have hrest : LastOnly fs := by
            cases fs with
            | nil => cases hlast
            | cons g fs => exact hlast.2
          have hbehind : Behind enqueue parts fs beats out next peer' :=
            ⟨hfits, .inr ⟨hrest, fun hp => absurd hp hparts⟩, hbeats, hvalids, hanswered,
              hpayloads ▸ h.out_eq, h.count_le, h.total_le⟩
          exact .command hparts hfit hlen hanswer (ih hbehind)
    | last =>
      obtain ⟨hcount, htotal⟩ := h.room nofun
      obtain ⟨hcommands, hpayloads⟩ := payloads_cons (f := ⟨.last, long, payload⟩) nofun fs
      have hnil : fs = [] := by
        rcases h.ordered with ⟨-, g, hg, -⟩ | ⟨hlast, -⟩
        · exact (List.cons.inj hg).2
        · cases fs with
          | nil => rfl
          | cons g fs => exact absurd rfl hlast.1
      obtain rfl := hnil
      have hbeats := h.commands_eq
      rw [hcommands] at hbeats
      obtain rfl : beats = [] := List.map_eq_nil_iff.1 hbeats.symm
      obtain rfl := Except.ok.inj h.answered
      rw [h.out_eq, hpayloads]
      exact .last hfit hcount htotal
    | more =>
      obtain ⟨hcount, htotal⟩ := h.room nofun
      obtain ⟨hcommands, hpayloads⟩ := payloads_cons (f := ⟨.more, long, payload⟩) nofun fs
      have hrest : LastOnly fs := by
        rcases h.ordered with ⟨-, g, hg, htag⟩ | ⟨hlast, -⟩
        · obtain ⟨rfl, -⟩ := List.cons.inj hg
          cases htag
        · cases fs with
          | nil => cases hlast
          | cons g fs => exact hlast.2
      have hout : out = parts ++ [payload] ++ payloads fs := by
        rw [h.out_eq, hpayloads]
        simp
      have hbehind : Behind enqueue (parts ++ [payload]) fs beats out peer peer' :=
        ⟨hfits, .inr ⟨hrest, fun hp => by simp at hp⟩, hcommands ▸ h.commands_eq, h.valid,
          h.answered, hout, h.count_le, h.total_le⟩
      exact .more hfit hcount htotal (ih hbehind)

/-- **Accepted messages**: reading takes exactly the messages that frames with heartbeats between
them make, in either form of a length: it answers each PING with its context in order, returns the
parts with permits for their lengths, at most 32 of them and a mebibyte, and leaves what follows. -/
theorem message_accepted (enqueue : σ → Wire → Except String σ) (peer peer' : σ) (s rest : Bytes)
    (m : Message) : messageWith enqueue peer s = .ok (m, peer', rest) ↔
      m.credits = m.parts.map List.length ∧ ∃ fs beats, s = fs.flatMap Frame.bytes ++ rest ∧
        Behind enqueue [] fs beats m.parts peer peer' := by
  rw [messageWith_iff]
  constructor
  · rintro ⟨out, rfl, hreads⟩
    exact ⟨rfl, hreads.behind⟩
  · rintro ⟨hcredits, fs, beats, rfl, hbehind⟩
    obtain ⟨parts, credits⟩ := m
    obtain rfl : credits = parts.map List.length := hcredits
    exact ⟨parts, rfl, hbehind.reads rest⟩

/-! ## Round trips -/

/-- A part in the form `encode` gives it. -/
def sentPart (tag : Tag) (part : Bytes) : Frame := ⟨tag, decide (256 ≤ part.length), part⟩

/-- The frames of `encode`. -/
def sentFrames : List Bytes → List Frame
  | [] => []
  | [part] => [sentPart .last part]
  | part :: next :: parts => sentPart .more part :: sentFrames (next :: parts)

lemma sentPart_bytes (more : Bool) (part : Bytes) :
    (sentPart (if more = true then .more else .last) part).bytes = frame more part := by
  unfold frame sentPart Frame.bytes frameBytes lengthBytes
  by_cases hlong : 256 ≤ part.length
  · rw [if_neg (Nat.not_lt.2 hlong), decide_eq_true hlong]
    cases more <;> rfl
  · rw [if_pos (Nat.lt_of_not_le hlong), decide_eq_false hlong]
    cases more <;> rfl

lemma sentFrames_bytes (parts : List Bytes) :
    (sentFrames parts).flatMap Frame.bytes = frames parts := by
  induction parts with
  | nil => rfl
  | cons part parts ih =>
    cases parts with
    | nil =>
      rw [sentFrames, frames, List.flatMap_singleton]
      exact sentPart_bytes false part
    | cons next parts =>
      rw [sentFrames, List.flatMap_cons, ih]
      exact congrArg (· ++ frames (next :: parts)) (sentPart_bytes true part)

/-- What the frames of some parts are: only the last one is tagged so, and they carry the parts. -/
lemma sentFrames_spec (hne : parts ≠ []) :
    (∃ init f, sentFrames parts = init ++ [f] ∧ f.tag = .last ∧ ∀ g ∈ init, g.tag = .more) ∧
      (sentFrames parts).map Frame.payload = parts := by
  induction parts with
  | nil => exact absurd rfl hne
  | cons part parts ih =>
    cases parts with
    | nil => exact ⟨⟨[], sentPart .last part, rfl, rfl, List.forall_mem_nil _⟩, rfl⟩
    | cons next parts =>
      obtain ⟨⟨init, f, hframes, htag, hinit⟩, hpayload⟩ := ih (List.cons_ne_nil next parts)
      rw [sentFrames, List.map_cons, hpayload]
      refine ⟨⟨sentPart .more part :: init, f, by rw [hframes]; rfl, htag, ?_⟩, rfl⟩
      exact List.forall_mem_cons.2 ⟨rfl, hinit⟩

lemma sentFrames_fits (hle : partBytes parts ≤ mebi) : ∀ f ∈ sentFrames parts, f.Fits := by
  have hone : ∀ (tag : Tag) (part : Bytes), part.length ≤ mebi → (sentPart tag part).Fits := by
    intro tag part hpart
    unfold Frame.Fits FitsForm sentPart
    unfold mebi at hpart
    by_cases hlong : 256 ≤ part.length
    · rw [decide_eq_true hlong, if_pos rfl]
      dsimp only
      omega
    · rw [decide_eq_false hlong, if_neg Bool.false_ne_true]
      exact Nat.lt_of_not_le hlong
  induction parts with
  | nil => exact List.forall_mem_nil _
  | cons part parts ih =>
    have hsum : partBytes (part :: parts) = part.length + partBytes parts := by simp [partBytes]
    cases parts with
    | nil => exact List.forall_mem_singleton.2 (hone _ _ (by omega))
    | cons next parts =>
      exact List.forall_mem_cons.2 ⟨hone _ _ (by omega), ih (by omega)⟩

/-- The size of a message is summed up without an overflow. -/
lemma wireSize_eq {n : Nat} (h : n + (partBytes parts + 9 * parts.length) ≤ maxWord) :
    parts.foldlM (fun n p => (checkedAdd n p.length).bind fun n => checkedAdd n 9) n =
      some (n + (partBytes parts + 9 * parts.length)) := by
  induction parts generalizing n with
  | nil => rfl
  | cons part parts ih =>
    have hsum : partBytes (part :: parts) = part.length + partBytes parts := by simp [partBytes]
    rw [List.length_cons] at h
    have hfirst : (checkedAdd n part.length).bind (fun n => checkedAdd n 9) =
        some (n + part.length + 9) := by
      unfold checkedAdd
      rw [if_pos (by omega), Option.bind_some, if_pos (by omega)]
    rw [List.foldlM_cons, hfirst, Option.bind_eq_bind, Option.bind_some, ih (by omega),
      List.length_cons]
    congr 1
    omega

/-- A message within the limits is encoded. -/
lemma encode_ok (hcount : parts.length ≤ 32) (hle : partBytes parts ≤ mebi) :
    ∃ wire, encode parts = .ok wire ∧ wire.bytes = frames parts := by
  unfold mebi at hle
  have hsize : wireSize parts = some (partBytes parts + 9 * parts.length) := by
    have h : wireSize parts = some (0 + (partBytes parts + 9 * parts.length)) :=
      wireSize_eq (by unfold maxWord; omega)
    rwa [Nat.zero_add] at h
  refine ⟨⟨frames parts, partBytes parts + 9 * parts.length⟩, ?_, rfl⟩
  unfold encode
  rw [hsize]
  exact if_neg (by unfold mebi; omega)

lemma lastOnly_append {init : List Frame} {f : Frame} (htag : f.tag = .last)
    (hinit : ∀ g ∈ init, g.tag ≠ .last) : LastOnly (init ++ [f]) := by
  induction init with
  | nil => exact htag
  | cons g init ih =>
    obtain ⟨hg, hinit⟩ := List.forall_mem_cons.1 hinit
    exact (lastOnly_cons (ih hinit)).2 hg

/-- The frames of some parts with commands behind the first and before the last. -/
structure Woven (parts : List Bytes) (fs : List Frame) : Prop where
  parts_eq : fs.filter (·.tag ≠ .command) = sentFrames parts
  head : ∀ f ∈ fs.head?, f.tag ≠ .command
  last : ∀ f ∈ fs.getLast?, f.tag ≠ .command
  fits : ∀ f ∈ fs, f.tag = .command → f.Fits

/-- Commands between the frames do not change what is last. -/
lemma Woven.lastOnly {fs : List Frame} (h : Woven parts fs) (hne : parts ≠ []) : LastOnly fs := by
  obtain ⟨⟨init', f', hframes, htag', hmore⟩, -⟩ := sentFrames_spec hne
  rcases List.eq_nil_or_concat' fs with rfl | ⟨init, f, rfl⟩
  · have hnil := h.parts_eq
    rw [hframes] at hnil
    simp at hnil
  · have hf : f.tag ≠ .command := h.last f (List.getLast?_concat ..)
    have hparts := h.parts_eq
    rw [hframes, List.filter_append, List.filter_singleton, decide_eq_true hf, cond_true] at hparts
    obtain ⟨hinit, hlast⟩ := List.append_inj' hparts rfl
    obtain rfl := (List.cons.inj hlast).1
    refine lastOnly_append htag' fun g hg htag => ?_
    have hmem : g ∈ init' := hinit ▸ List.mem_filter.2 ⟨hg, by rw [htag]; rfl⟩
    rw [hmore g hmem] at htag
    cases htag

/-- **Round trip**: what `encode` makes of up to 32 parts of up to a mebibyte is read as these parts,
also with heartbeats between the frames, each of which the peer is sent the answer of; nothing
behind the message is taken, and no part of its bytes is a message. -/
theorem encoded_message_read (enqueue : σ → Wire → Except String σ) (peer peer' : σ)
    (parts : List Bytes) (hne : parts ≠ []) (hcount : parts.length ≤ 32) (hle : partBytes parts ≤ mebi)
    (fs : List Frame) (hwoven : Woven parts fs) (beats : List Beat)
    (hbeats : commands fs = beats.map Beat.command) (hvalid : ∀ beat ∈ beats, beat.Valid)
    (hanswered : (beats.filterMap Beat.reply).foldlM enqueue peer = .ok peer') :
    (∃ wire, encode parts = .ok wire ∧ wire.bytes = (sentFrames parts).flatMap Frame.bytes) ∧
      (∀ rest, messageWith enqueue peer (fs.flatMap Frame.bytes ++ rest) =
        .ok (⟨parts, parts.map List.length⟩, peer', rest)) ∧
      ∀ q t, q ++ t = fs.flatMap Frame.bytes → t ≠ [] → ∃ e, messageWith enqueue peer q = .error e := by
  obtain ⟨-, hpayload⟩ := sentFrames_spec hne
  have hbehind : Behind enqueue [] fs beats parts peer peer' := by
    refine ⟨fun f hf => ?_, .inr ⟨hwoven.lastOnly hne, fun _ => hwoven.head⟩, hbeats, hvalid,
      hanswered, ?_, hcount, hle⟩
    · by_cases htag : f.tag = .command
      · exact hwoven.fits f hf htag
      · refine sentFrames_fits hle f ?_
        rw [← hwoven.parts_eq]
        exact List.mem_filter.2 ⟨hf, decide_eq_true htag⟩
    · rw [List.nil_append, payloads, hwoven.parts_eq, hpayload]
  have hread := fun rest => messageWith_iff.2 ⟨parts, rfl, hbehind.reads rest⟩
  refine ⟨?_, hread, fun q t hq ht => ?_⟩
  · obtain ⟨wire, hwire, hbytes⟩ := encode_ok hcount hle
    exact ⟨wire, hwire, hbytes.trans (sentFrames_bytes parts).symm⟩
  · cases hresult : messageWith enqueue peer q with
    | error e => exact ⟨e, rfl⟩
    | ok r =>
      -- A message in the beginning would be the message of the whole, with something left.
      obtain ⟨m, peer'', rest⟩ := r
      obtain ⟨out, rfl, hreads⟩ := messageWith_iff.1 hresult
      have hwhole := messageWith_iff.2 ⟨out, rfl, hreads.append t⟩
      rw [hq, ← List.append_nil (fs.flatMap Frame.bytes), hread []] at hwhole
      obtain ⟨-, hrest⟩ := Prod.mk.inj (Prod.mk.inj (Except.ok.inj hwhole)).2
      exact absurd (List.append_eq_nil_iff.1 hrest.symm).2 ht

/-- `a`, a PING and `b`. -/
def pinged : List Frame :=
  [⟨.more, false, [97]⟩, ⟨.command, false, (Beat.ping [0, 0] [42]).command⟩, ⟨.last, false, [98]⟩]

/-- The PING between two parts is answered. -/
theorem encoded_message_read_pinged :
    (∃ wire, encode [[97], [98]] = .ok wire ∧
        wire.bytes = (sentFrames [[97], [98]]).flatMap Frame.bytes) ∧
      (∀ rest, messageWith (fun sent wire => .ok (sent ++ [wire])) []
        (pinged.flatMap Frame.bytes ++ rest) =
        .ok (⟨[[97], [98]], [1, 1]⟩, [⟨[4, 6, 4, 80, 79, 78, 71, 42], 8⟩], rest)) ∧
      ∀ q t, q ++ t = pinged.flatMap Frame.bytes → t ≠ [] →
        ∃ e, messageWith (fun sent wire => .ok (sent ++ [wire])) [] q = .error e :=
  encoded_message_read (fun sent wire => .ok (sent ++ [wire])) []
    [⟨[4, 6, 4, 80, 79, 78, 71, 42], 8⟩] [[97], [98]] (by decide) (by decide) (by decide) pinged
    ⟨by decide, by decide, by decide, by
      intro f hf htag
      simp only [pinged, List.mem_cons, List.not_mem_nil, or_false] at hf
      rcases hf with rfl | rfl | rfl
      · cases htag
      · exact show (8 : Nat) < 256 by decide
      · cases htag⟩ [.ping [0, 0] [42]] rfl
    (List.forall_mem_singleton.2 (show 2 = 2 ∧ 1 ≤ 16 by decide)) rfl

end Jupyter.Transport

end Rnx
