import Rnx.Native.Tended

/-!
# The accounts of a build

While a build is under way its entry is charged what the build has kept so far: the loaded
artifacts and the descriptor, the vector variants that are not yet attached to their region, and a
reservation whose artifact is not yet loaded.  Each step of the build moves charges between these,
and each of its failure exits gives back exactly the last.
-/

namespace Rnx

namespace Native

variable {z : Sizes} {limits : Limits z} {guards : List Program} {w : World}

/-! ## What a build has kept -/

/-- What a build keeps in its program, besides the descriptor. -/
structure Artifacts where
  id : Nat
  functionLimit : Nat
  ready : List Ready
  scalar : Activations
  methods : Activations

/-- The artifacts of a build. -/
def Build.artifacts (b : Build) : Artifacts :=
  ⟨b.id, b.functionLimit, b.ready, b.scalar, b.methods⟩

/-- What the artifacts are charged. -/
def Artifacts.charge (z : Sizes) (a : Artifacts) : Charge :=
  (a.ready.map (Ready.charge z)).sum + a.scalar.charge z .scalar + a.methods.charge z .methods

/-- How many loads a region of the program stands for. -/
def Ready.loads (r : Ready) : Nat :=
  1 + r.vector.elim 0 fun v => v.integer.toList.length + v.boolean.toList.length

/-- How many loads the artifacts stand for. -/
def Artifacts.loads (a : Artifacts) : Nat :=
  (a.ready.map Ready.loads).sum + a.scalar.ready.length + a.methods.ready.length

/-- Only activations have a lookup table. -/
def Activations.Sound (t : Activations) : Prop := t.ready = [] → t.lookup = []

/-- What is in flight: the box of vector variants, the variants loaded into it, a reservation whose
artifact is not loaded, and whether the descriptor is known to be reserved. -/
structure Flight where
  box : Nat
  natives : List Loaded
  extra : Charge
  shell : Bool

/-- Nothing is in flight. -/
def Flight.none : Flight := ⟨0, [], 0, false⟩

/-- What the box and its variants are charged. -/
def Flight.charge (z : Sizes) (f : Flight) : Charge :=
  ⟨0, f.box⟩ + (f.natives.map (Loaded.charge z)).sum

/-- What the descriptor is charged. -/
def shellCharge (z : Sizes) (descriptor : Bool) : Charge :=
  if descriptor then ⟨0, z.programDescriptor⟩ else 0

/-- What the program of a build is charged so far. -/
def Build.owed (z : Sizes) (b : Build) (f : Flight) : Charge :=
  b.artifacts.charge z + shellCharge z b.descriptor + f.charge z

/-- The invariant of a build in progress. -/
structure Owing (limits : Limits z) (guards : List Program) (a : Artifacts) (f : Flight)
    (s : Work) : Prop where
  artifacts : s.build.artifacts = a
  cache : Tended limits guards (some (a.id, s.build.owed z f + f.extra)) s.cache
  program : s.build.programMetadata = (s.build.owed z f).metadata
  loaded : s.build.summary.loaded = a.loads + f.natives.length
  metadata : s.build.summary.metadataBytes + s.build.summary.loaded * moduleReserveBytes =
    s.build.programMetadata
  attempted : s.build.descriptor = true → s.build.descriptorAttempted = true
  descriptor : s.build.summary.loaded ≠ 0 ∨ f.shell = true → s.build.descriptor = true
  scalar : a.scalar.Sound
  methods : a.methods.Sound

/-- How a build leaves by unwinding: its entry is still marked. -/
def Unwinds (limits : Limits z) (guards : List Program) (id : Nat) (fault : Fault) (s : Work) :
    Prop :=
  fault = .panic ∧ ∃ charge, Tended limits guards (some (id, charge)) s.cache

variable {a : Artifacts} {f : Flight} {s : Work} {α β : Type}

/-- Sequencing of steps that unwind alike. -/
lemma wp_then {m : M α} {g : α → M β} {Q : α → Work → Prop} {R : β → Work → Prop}
    {E : Fault → Work → Prop} (h : m.wp Q E s) (hg : ∀ x t, Q x t → (g x).wp R E t) :
    (m >>= g).wp R E s :=
  ErrState.wp_seq h (fun _ _ he => he) hg

lemma Owing.unwinds (h : Owing limits guards a f s) : Unwinds limits guards a.id .panic s :=
  ⟨rfl, _, h.cache⟩

/-- A step that may unwind changes nothing. -/
lemma strike_then (h : Owing limits guards a f s) {site : Site} {k : Unit → M β}
    {R : β → Work → Prop} (hk : (k ()).wp R (Unwinds limits guards a.id) s) :
    (strike w site >>= k).wp R (Unwinds limits guards a.id) s := by
  apply ErrState.wp_bind.2
  unfold ErrState.wp strike
  split_ifs
  · exact h.unwinds
  · exact hk

/-- Counting anything but loads and metadata. -/
lemma Owing.count (h : Owing limits guards a f s) {g : NativeSummary → NativeSummary}
    (hloaded : ∀ n, (g n).loaded = n.loaded) (hmetadata : ∀ n, (g n).metadataBytes = n.metadataBytes) :
    Owing limits guards a f { s with build := { s.build with summary := g s.build.summary } } := by
  constructor
  · exact h.artifacts
  · exact h.cache
  · exact h.program
  · exact (hloaded _).trans h.loaded
  · show (g s.build.summary).metadataBytes + (g s.build.summary).loaded * _ = _
    rw [hloaded, hmetadata]
    exact h.metadata
  · exact h.attempted
  · show (g s.build.summary).loaded ≠ 0 ∨ _ → _
    rw [hloaded]
    exact h.descriptor
  · exact h.scalar
  · exact h.methods

lemma count_then (h : Owing limits guards a f s) {g : NativeSummary → NativeSummary}
    {k : Unit → M β} {R : β → Work → Prop} {E : Fault → Work → Prop}
    (hloaded : ∀ n, (g n).loaded = n.loaded) (hmetadata : ∀ n, (g n).metadataBytes = n.metadataBytes)
    (hk : ∀ t, Owing limits guards a f t → t.build.descriptor = s.build.descriptor →
      (k ()).wp R E t) :
    (Native.count g >>= k).wp R E s :=
  ErrState.wp_update_bind.2 (hk _ (h.count hloaded hmetadata) rfl)

lemma count_end (h : Owing limits guards a f s) {g : NativeSummary → NativeSummary}
    {R : Unit → Work → Prop} {E : Fault → Work → Prop}
    (hloaded : ∀ n, (g n).loaded = n.loaded) (hmetadata : ∀ n, (g n).metadataBytes = n.metadataBytes)
    (hR : ∀ t, Owing limits guards a f t → R () t) : (Native.count g).wp R E s :=
  hR _ (h.count hloaded hmetadata)

/-- A reservation is in flight until its artifact is loaded. -/
lemma reserve_wp (h : Owing limits guards a f s) (hextra : f.extra = 0) (mapped metadata : Nat) :
    (reserve limits mapped metadata).wp
      (fun reserved t => t.build = s.build ∧
        (reserved = true → metadata < usizeMax ∧
          Owing limits guards a { f with extra := ⟨mapped, metadata⟩ } t) ∧
        (reserved = false → Owing limits guards a f t))
      (Unwinds limits guards a.id) s := by
  have hid : s.build.id = a.id := congrArg Artifacts.id h.artifacts
  obtain ⟨d, reserved, hreserve, hyes, hno⟩ :=
    reserve_spec mapped metadata h.cache
  unfold ErrState.wp reserve
  rw [hid, hreserve]
  rw [hextra] at hyes
  refine ⟨rfl, ?_, ?_⟩
  · intro hreserved
    obtain ⟨hsize, hd⟩ := hyes hreserved
    rw [add_zero] at hd
    exact ⟨hsize, { h with cache := hd }⟩
  · intro hreserved
    exact { h with cache := hno hreserved }

/-- Giving back the reservation in flight. -/
lemma unreserve_wp {mapped metadata : Nat} (hextra : f.extra = 0)
    (h : Owing limits guards a { f with extra := ⟨mapped, metadata⟩ } s) :
    (unreserve mapped metadata).wp
      (fun _ t => Owing limits guards a f t ∧ t.build = s.build)
      (Unwinds limits guards a.id) s := by
  have hid : s.build.id = a.id := congrArg Artifacts.id h.artifacts
  obtain ⟨d, hunreserve, hd⟩ := unreserve_spec h.cache
  unfold ErrState.wp unreserve
  rw [hid, hunreserve]
  refine ⟨{ h with cache := ?_ }, rfl⟩
  rw [hextra, add_zero]
  exact hd

/-- Less is known of the descriptor. -/
lemma Owing.weaken (h : Owing limits guards a { f with shell := true } s) :
    Owing limits guards a f s :=
  { h with descriptor := fun _ => h.descriptor (.inr rfl) }

/-! ## The descriptor -/

/-- A reserved descriptor is part of what is owed. -/
lemma Owing.descriptor_reserved (hextra : f.extra = 0)
    (h : Owing limits guards a { f with extra := ⟨0, z.programDescriptor⟩ } s)
    (hnone : s.build.descriptor = false) (hattempted : s.build.descriptorAttempted = true) :
    Owing limits guards a { f with shell := true }
      { s with build := { s.build with
          descriptor := true
          programMetadata := s.build.programMetadata + z.programDescriptor
          summary := { s.build.summary with
            metadataBytes := s.build.summary.metadataBytes + z.programDescriptor } } } := by
  have howed : a.charge z + shellCharge z true + f.charge z =
      s.build.owed z f + ⟨0, z.programDescriptor⟩ := by
    unfold Build.owed
    rw [h.artifacts, hnone]
    unfold shellCharge
    ext
    · simp
    · simp
      omega
  have hlists : s.build.artifacts = a := h.artifacts
  constructor
  · exact h.artifacts
  · show Tended limits guards (some (a.id, s.build.artifacts.charge z + shellCharge z true +
      f.charge z + f.extra)) s.cache
    rw [hlists, howed, hextra, add_zero]
    exact h.cache
  · show s.build.programMetadata + z.programDescriptor =
      (s.build.artifacts.charge z + shellCharge z true + f.charge z).metadata
    rw [hlists, howed]
    exact congrArg (· + z.programDescriptor) h.program
  · exact h.loaded
  · have := h.metadata
    show s.build.summary.metadataBytes + z.programDescriptor + s.build.summary.loaded * _ =
      s.build.programMetadata + z.programDescriptor
    omega
  · intro _
    exact hattempted
  · intro _
    rfl
  · exact h.scalar
  · exact h.methods

/-- The descriptor is charged once, when it is reserved. -/
lemma reserveDescriptor_spec (h : Owing limits guards a f s) (hextra : f.extra = 0) :
    (reserveDescriptor limits w).wp
      (fun reserved t => Owing limits guards a f t ∧
        (reserved = true → Owing limits guards a { f with shell := true } t))
      (Unwinds limits guards a.id) s := by
  unfold reserveDescriptor
  apply ErrState.wp_get_bind.2
  simp only
  split_ifs with hattempted hroom halloc
  · refine ⟨h, fun hdescriptor => { h with descriptor := ?_ }⟩
    intro _
    exact hdescriptor
  all_goals
    have hnone : s.build.descriptor = false := by
      cases hd : s.build.descriptor with
      | false => rfl
      | true => exact absurd (h.attempted hd) hattempted
    apply ErrState.wp_update_bind.2
    have h' : Owing limits guards a f
        { s with build := { s.build with descriptorAttempted := true } } :=
      { h with attempted := fun _ => rfl }
  · refine count_then h' (fun _ => rfl) (fun _ => rfl) ?_
    intro t ht _
    exact ⟨ht, fun hr => Bool.noConfusion hr⟩
  · apply strike_then h'
    apply wp_then (reserve_wp h' hextra 0 z.programDescriptor)
    intro reserved t ⟨hbuild, hyes, hno⟩
    cases reserved with
    | false =>
        refine count_then (hno rfl) (fun _ => rfl) (fun _ => rfl) ?_
        intro u hu _
        exact ⟨hu, fun hr => Bool.noConfusion hr⟩
    | true =>
        obtain ⟨-, ht⟩ := hyes rfl
        apply ErrState.wp_update_bind.2
        have hshell := ht.descriptor_reserved hextra (by rw [hbuild]; exact hnone) (by rw [hbuild])
        exact ⟨hshell.weaken, fun _ => hshell⟩
  · refine count_then h' (fun _ => rfl) (fun _ => rfl) ?_
    intro t ht _
    exact ⟨ht, fun hr => Bool.noConfusion hr⟩

/-! ## Charging and loading -/

/-- An artifact that is not loaded leaves no charge behind; one that is leaves its reservation in
flight. -/
lemma chargeAndLoad_spec (h : Owing limits guards a f s) (hextra : f.extra = 0)
    (mapped metadata : Nat) (ready : Bool) :
    (chargeAndLoad limits w mapped metadata (pure ready)).wp
      (fun loaded t => t.build.descriptor = s.build.descriptor ∧
        (loaded = true → metadata < usizeMax ∧
          Owing limits guards a { f with extra := ⟨mapped, metadata⟩ } t) ∧
        (loaded = false → Owing limits guards a f t))
      (Unwinds limits guards a.id) s := by
  unfold chargeAndLoad
  apply strike_then h
  apply wp_then (reserve_wp h hextra mapped metadata)
  intro reserved t ⟨hbuild, hyes, hno⟩
  have hdescriptor : t.build.descriptor = s.build.descriptor := by rw [hbuild]
  cases reserved with
  | false =>
      refine count_then (hno rfl) (fun _ => rfl) (fun _ => rfl) ?_
      intro u hu hub
      exact ⟨hub.trans hdescriptor, fun hr => Bool.noConfusion hr, fun _ => hu⟩
  | true =>
      obtain ⟨hsize, ht⟩ := hyes rfl
      -- What the failure exits have in common: the reservation is given back, then counted.
      have hundo : ∀ {g : NativeSummary → NativeSummary}, (∀ n, (g n).loaded = n.loaded) →
          (∀ n, (g n).metadataBytes = n.metadataBytes) →
          (do unreserve mapped metadata; count g; pure false : M Bool).wp
            (fun loaded u => u.build.descriptor = s.build.descriptor ∧
              (loaded = true → metadata < usizeMax ∧
                Owing limits guards a { f with extra := ⟨mapped, metadata⟩ } u) ∧
              (loaded = false → Owing limits guards a f u))
            (Unwinds limits guards a.id) t := by
        intro g hloaded hmetadata
        apply wp_then (unreserve_wp hextra ht)
        intro _ u ⟨hu, hub⟩
        refine count_then hu hloaded hmetadata ?_
        intro v hv hvb
        exact ⟨hvb.trans (hub ▸ hdescriptor), fun hr => Bool.noConfusion hr, fun _ => hv⟩
      simp only [if_true]
      apply strike_then ht
      apply ErrState.wp_get_bind.2
      split_ifs
      · apply strike_then ht
        cases ready with
        | false => exact hundo (fun _ => rfl) (fun _ => rfl)
        | true =>
            apply ErrState.wp_bind.2
            rw [ErrState.wp_pure]
            simp only [if_true]
            split
            · apply strike_then ht
              exact ⟨hdescriptor, fun _ => ⟨hsize, ht⟩, fun hr => Bool.noConfusion hr⟩
            · exact hundo (fun _ => rfl) (fun _ => rfl)
            · exact hundo (fun _ => rfl) (fun _ => rfl)
      · exact hundo (fun _ => rfl) (fun _ => rfl)

/-- A loaded artifact moves its reservation to what is owed for the program. -/
lemma Owing.recordLoaded {mapped metadata : Nat} {a' : Artifacts} {b : Build}
    (bytes : Nat) (f' : Flight) (h : Owing limits guards a { f with extra := ⟨mapped, metadata⟩ } s)
    (hsummary : b.summary = s.build.summary)
    (hprogram : b.programMetadata = s.build.programMetadata)
    (hshell : b.descriptor = s.build.descriptor)
    (hattempted : b.descriptorAttempted = s.build.descriptorAttempted)
    (ha : b.artifacts = a') (hid : a'.id = a.id) (hextra : f'.extra = 0)
    (hcharge : a'.charge z + f'.charge z = a.charge z + f.charge z + ⟨mapped, metadata⟩)
    (hloads : a'.loads + f'.natives.length = a.loads + f.natives.length + 1)
    (hreserve : moduleReserveBytes ≤ metadata) (hdescriptor : s.build.descriptor = true)
    (hscalar : a'.scalar.Sound) (hmethods : a'.methods.Sound) :
    Owing limits guards a' f' { s with build := recordLoaded bytes mapped metadata b } := by
  have howed : a'.charge z + shellCharge z s.build.descriptor + f'.charge z =
      s.build.owed z f + ⟨mapped, metadata⟩ := by
    unfold Build.owed
    rw [h.artifacts, add_right_comm, hcharge]
    ext
    · simp
      omega
    · simp
      omega
  have hcount := h.loaded
  have hmetadata := h.metadata
  constructor
  · exact ha
  · show Tended limits guards (some (a'.id, b.artifacts.charge z + shellCharge z b.descriptor +
      f'.charge z + f'.extra)) s.cache
    rw [ha, hshell, howed, hid, hextra, add_zero]
    exact h.cache
  · show b.programMetadata + metadata =
      (b.artifacts.charge z + shellCharge z b.descriptor + f'.charge z).metadata
    rw [ha, hshell, howed, hprogram]
    exact congrArg (· + metadata) h.program
  · show b.summary.loaded + 1 = _
    rw [hsummary, hloads, hcount]
  · show b.summary.metadataBytes + (metadata - moduleReserveBytes) +
      (b.summary.loaded + 1) * moduleReserveBytes = b.programMetadata + metadata
    rw [hsummary, hprogram, Nat.add_mul]
    omega
  · intro _
    show b.descriptorAttempted = true
    rw [hattempted]
    exact h.attempted hdescriptor
  · intro _
    show b.descriptor = true
    rw [hshell, hdescriptor]
  · exact hscalar
  · exact hmethods

/-! ## Regions -/

lemma mayLoad_spec (h : Owing limits guards a f s) {E : Fault → Work → Prop} :
    (mayLoad w).wp (fun _ t => Owing limits guards a f t) E s := by
  unfold mayLoad
  split
  · exact h
  all_goals
    refine count_then h (fun _ => rfl) (fun _ => rfl) ?_
    intro t ht _
    exact ht

lemma capped_spec (h : Owing limits guards a f s) {E : Fault → Work → Prop} :
    (capped limits w).wp (fun _ t => Owing limits guards a f t) E s := by
  unfold capped
  apply ErrState.wp_get_bind.2
  simp only
  split_ifs
  · exact h
  · refine count_then h (fun _ => rfl) (fun _ => rfl) ?_
    intro t ht _
    exact ht
  · refine count_then h (fun _ => rfl) (fun _ => rfl) ?_
    intro t ht _
    exact ht
  · exact h

/-- Nothing was loaded. -/
lemma Owing.nothing (h : Owing limits guards a f s) :
    Owing limits guards a { f with natives := f.natives ++ (none : Option Loaded).toList } s := by
  rw [Option.toList_none, List.append_nil]
  exact h

lemma moduleReserve_le (n : Nat) : moduleReserveBytes ≤ saturatingAdd n moduleReserveBytes := by
  unfold saturatingAdd moduleReserveBytes usizeMax
  omega

/-- A sum that was reserved is not saturated. -/
lemma saturatingAdd_of_lt {x y : Nat} (h : saturatingAdd x y < usizeMax) :
    saturatingAdd x y = x + y := by
  unfold saturatingAdd at h ⊢
  omega

/-- The compile attempts are no part of the accounts. -/
lemma Owing.compiles (h : Owing limits guards a f s) (n : Nat) :
    Owing limits guards a f { s with build := { s.build with compiles := n } } := by
  constructor
  · exact h.artifacts
  · exact h.cache
  · exact h.program
  · exact h.loaded
  · exact h.metadata
  · exact h.attempted
  · exact h.descriptor
  · exact h.scalar
  · exact h.methods

lemma classify_loaded (region : Region) (refusal : NativeRefusal) (n : NativeSummary) :
    (classify region refusal n).loaded = n.loaded := by
  cases refusal with
  | division =>
      simp only [classify]
      split <;> rfl
  | size | codegen | audit | other => rfl

lemma classify_metadataBytes (region : Region) (refusal : NativeRefusal) (n : NativeSummary) :
    (classify region refusal n).metadataBytes = n.metadataBytes := by
  cases refusal with
  | division =>
      simp only [classify]
      split <;> rfl
  | size | codegen | audit | other => rfl

/-- A variant that is loaded is in flight. -/
lemma flight_charge_concat (f : Flight) (n : Loaded) :
    ({ f with natives := f.natives ++ [n] } : Flight).charge z = f.charge z + n.charge z := by
  unfold Flight.charge
  rw [List.map_append, List.sum_append, List.map_singleton, List.sum_singleton, add_assoc]

/-- A loaded region is in flight until it is kept. -/
lemma loadReady_spec (h : Owing limits guards a f s) (hextra : f.extra = 0) (region : Region) :
    (loadReady limits w region).wp
      (fun o t => Owing limits guards a { f with natives := f.natives ++ o.toList } t)
      (Unwinds limits guards a.id) s := by
  unfold loadReady
  apply wp_then (mayLoad_spec h)
  intro may t ht
  split_ifs
  swap
  · exact ht.nothing
  apply wp_then (reserveDescriptor_spec ht hextra)
  intro reserved u ⟨hu, hshell⟩
  split_ifs with hreserved
  swap
  · exact hu.nothing
  replace hshell := hshell hreserved
  rw [ErrState.wp_get_bind]
  simp only
  generalize (checkedAdd u.build.programMetadata _).all _ = full
  apply ErrState.wp_ite
  · intro _
    refine count_then hu (fun _ => rfl) (fun _ => rfl) ?_
    intro v hv _
    exact hv.nothing
  intro _
  apply strike_then hu
  apply ErrState.wp_update_bind.2
  have hv := hshell.compiles (u.build.compiles + 1)
  split
  · refine count_then hv.weaken (fun _ => rfl) (fun _ => rfl) ?_
    intro v hv _
    exact hv.nothing
  · rename_i refusal _
    refine count_then hv.weaken (classify_loaded region refusal)
      (classify_metadataBytes region refusal) ?_
    · intro v hv _
      exact hv.nothing
  · split_ifs
    · refine count_then hv.weaken (fun _ => rfl) (fun _ => rfl) ?_
      intro v hv _
      exact hv.nothing
    · rename_i compiled _ _
      apply wp_then (chargeAndLoad_spec hv hextra _ _ true)
      intro loaded x ⟨hdescriptor, hyes, hno⟩
      cases loaded with
      | false => exact (hno rfl).weaken.nothing
      | true =>
          obtain ⟨hsize, hx⟩ := hyes rfl
          apply ErrState.wp_update_bind.2
          have hcharge : Loaded.charge z ⟨region, compiled.bytes, pageCeil compiled.bytes⟩ =
              ⟨pageCeil compiled.bytes, saturatingAdd (regionMetadata z region) moduleReserveBytes⟩ := by
            rw [saturatingAdd_of_lt hsize]
            rfl
          apply Owing.recordLoaded compiled.bytes
            { f with natives := f.natives ++ [⟨region, compiled.bytes, pageCeil compiled.bytes⟩] }
            hx rfl rfl rfl rfl hx.artifacts rfl hextra
          · rw [flight_charge_concat, hcharge, ← add_assoc]
            rfl
          · rw [List.length_append]
            rfl
          · exact moduleReserve_le _
          · exact hx.descriptor (.inr rfl)
          · exact hx.scalar
          · exact hx.methods

/-- Charges move between what is kept and what is in flight. -/
lemma Owing.move {a' : Artifacts} {b : Build} (f' : Flight) (h : Owing limits guards a f s)
    (hsummary : b.summary = s.build.summary)
    (hprogram : b.programMetadata = s.build.programMetadata)
    (hshell : b.descriptor = s.build.descriptor)
    (hattempted : b.descriptorAttempted = s.build.descriptorAttempted)
    (ha : b.artifacts = a') (hid : a'.id = a.id) (hextra : f'.extra = f.extra)
    (hcharge : a'.charge z + f'.charge z = a.charge z + f.charge z)
    (hloads : a'.loads + f'.natives.length = a.loads + f.natives.length)
    (hknown : f'.shell = true → f.shell = true)
    (hscalar : a'.scalar.Sound) (hmethods : a'.methods.Sound) :
    Owing limits guards a' f' { s with build := b } := by
  have howed : b.owed z f' = s.build.owed z f := by
    unfold Build.owed
    rw [h.artifacts, ha, hshell, add_right_comm, hcharge, add_right_comm]
  constructor
  · exact ha
  · show Tended limits guards (some (a'.id, b.owed z f' + f'.extra)) s.cache
    rw [howed, hid, hextra]
    exact h.cache
  · show b.programMetadata = (b.owed z f').metadata
    rw [howed, hprogram]
    exact h.program
  · show b.summary.loaded = _
    rw [hsummary, hloads]
    exact h.loaded
  · show b.summary.metadataBytes + b.summary.loaded * _ = b.programMetadata
    rw [hsummary, hprogram]
    exact h.metadata
  · show b.descriptor = true → b.descriptorAttempted = true
    rw [hshell, hattempted]
    exact h.attempted
  · intro hloaded
    show b.descriptor = true
    rw [hshell]
    apply h.descriptor
    rw [← hsummary]
    exact hloaded.imp_right hknown
  · exact hscalar
  · exact hmethods

/-- A region that is loaded is kept, without variants. -/
lemma load_spec (h : Owing limits guards a Flight.none s) (region : Region) :
    (load limits w region).wp
      (fun _ t => Owing limits guards a Flight.none t ∨
        ∃ n, Owing limits guards { a with ready := a.ready ++ [⟨none, n⟩] } Flight.none t)
      (Unwinds limits guards a.id) s := by
  unfold load
  rw [ErrState.wp_get_bind]
  simp only
  split_ifs
  swap
  · exact count_end h (fun _ => rfl) (fun _ => rfl) fun t ht => .inl ht
  apply wp_then (loadReady_spec h rfl region)
  intro o t ht
  cases o with
  | none => exact .inl ht
  | some n =>
      right
      have hlists : t.build.artifacts = a := ht.artifacts
      refine ⟨n, Owing.move Flight.none ht rfl rfl rfl rfl ?_ rfl rfl ?_ ?_ (fun hs => hs) ht.scalar
        ht.methods⟩
      · rw [← hlists]
        rfl
      · ext
        · simp [Artifacts.charge, Flight.charge, Flight.none, Ready.charge]
          omega
        · simp [Artifacts.charge, Flight.charge, Flight.none, Ready.charge]
          omega
      · unfold Artifacts.loads Flight.none Ready.loads
        simp
        omega

/-! ## Vector variants -/

lemma loadVariant_spec (h : Owing limits guards a f s) (hextra : f.extra = 0)
    (function header : Nat) (ty : Scalar) :
    (loadVariant limits w function header ty).wp
      (fun r t => Owing limits guards a { f with natives := f.natives ++ r.1.toList } t)
      (Unwinds limits guards a.id) s := by
  unfold loadVariant
  apply wp_then (capped_spec h)
  intro full t ht
  split_ifs
  · exact ht.nothing
  apply strike_then ht
  split
  · refine count_then ht (fun _ => rfl) (fun _ => rfl) ?_
    intro u hu _
    apply wp_then (loadReady_spec hu hextra _)
    intro o v hv
    exact hv
  · refine count_then ht (fun _ => rfl) (fun _ => rfl) ?_
    intro u hu _
    exact hu.nothing
  · exact ht.nothing
  · refine count_then ht (fun _ => rfl) (fun _ => rfl) ?_
    intro u hu _
    exact hu.nothing
  · refine count_then ht (fun _ => rfl) (fun _ => rfl) ?_
    intro u hu _
    exact hu.nothing

/-- A sum of charges, component by component. -/
lemma sum_metadata {γ : Type} (l : List γ) (g : γ → Charge) :
    (l.map g).sum.metadata = (l.map fun x => (g x).metadata).sum := by
  induction l with
  | nil => rfl
  | cons x l ih =>
      rw [List.map_cons, List.sum_cons, List.map_cons, List.sum_cons, ← ih]
      rfl

/-- Loads that are charged at least the module estimate each. -/
lemma sum_loads_le {γ : Type} (l : List γ) (loads : γ → Nat) (g : γ → Charge)
    (h : ∀ x ∈ l, loads x * moduleReserveBytes ≤ (g x).metadata) :
    (l.map loads).sum * moduleReserveBytes ≤ (l.map g).sum.metadata := by
  rw [sum_metadata]
  induction l with
  | nil => simp
  | cons x l ih =>
      have hx := h x List.mem_cons_self
      have hl := ih fun y hy => h y (List.mem_cons_of_mem x hy)
      simp only [List.map_cons, List.sum_cons, Nat.add_mul]
      omega

lemma option_loads_le (o : Option Loaded) :
    o.toList.length * moduleReserveBytes ≤ (o.elim 0 (Loaded.charge z)).metadata := by
  cases o with
  | none => simp
  | some n => simp [Loaded.charge]

/-- Every load is charged the module estimate. -/
lemma loads_le (a : Artifacts) : a.loads * moduleReserveBytes ≤ (a.charge z).metadata := by
  have hready := sum_loads_le a.ready Ready.loads (Ready.charge z) (by
    intro r _
    unfold Ready.loads Ready.charge
    cases r.vector with
    | none => simp [Loaded.charge]
    | some v =>
        have hi := option_loads_le (z := z) v.integer
        have hb := option_loads_le (z := z) v.boolean
        simp only [Option.elim_some, VectorVariants.charge, Charge.add_metadata, Loaded.charge,
          Nat.add_mul]
        omega)
  have hkind : ∀ (which : Which) (t : Activations),
      t.ready.length * moduleReserveBytes ≤ (t.charge z which).metadata := by
    intro which t
    have := sum_loads_le t.ready (fun _ => 1) (Activation.charge z which) (by
      intro x _
      simp [Activation.charge])
    have hsum : (t.ready.map fun _ => 1).sum = t.ready.length := by
      rw [List.map_const', List.sum_replicate, Nat.nsmul_eq_mul, Nat.mul_one]
    rw [hsum] at this
    unfold Activations.charge
    rw [Charge.add_metadata]
    exact le_trans this (Nat.le_add_right _ _)
  have hscalar := hkind .scalar a.scalar
  have hmethods := hkind .methods a.methods
  simp only [Artifacts.loads, Artifacts.charge, Charge.add_metadata, Nat.add_mul]
  omega

lemma box_owed (b : Build) (bytes : Nat) :
    b.owed z { Flight.none with box := bytes } = b.owed z Flight.none + ⟨0, bytes⟩ := by
  ext
  · simp [Build.owed, Flight.charge, Flight.none]
  · simp [Build.owed, Flight.charge, Flight.none]

/-- The box of vector variants is reserved, then counted. -/
lemma Owing.box {bytes : Nat} (h : Owing limits guards a { Flight.none with extra := ⟨0, bytes⟩ } s) :
    Owing limits guards a { Flight.none with box := bytes }
      { s with build := { s.build with
          programMetadata := s.build.programMetadata + bytes
          summary := { s.build.summary with
            metadataBytes := s.build.summary.metadataBytes + bytes } } } := by
  have howed : s.build.owed z { Flight.none with box := bytes } =
      s.build.owed z Flight.none + ⟨0, bytes⟩ := box_owed s.build bytes
  have hmetadata := h.metadata
  constructor
  · exact h.artifacts
  · show Tended limits guards (some (a.id, s.build.owed z { Flight.none with box := bytes } + 0))
      s.cache
    rw [howed, add_zero]
    exact h.cache
  · show s.build.programMetadata + bytes = (s.build.owed z { Flight.none with box := bytes }).metadata
    rw [howed]
    exact congrArg (· + bytes) h.program
  · exact h.loaded
  · show s.build.summary.metadataBytes + bytes + s.build.summary.loaded * _ =
      s.build.programMetadata + bytes
    omega
  · exact h.attempted
  · exact h.descriptor
  · exact h.scalar
  · exact h.methods

lemma lessen_run {g : Build → Nat} (set : Nat → Build → Build) {n rest : Nat}
    (h : g s.build = n + rest) :
    lessen g set n s = (.ok (), { s with build := set rest s.build }) := by
  unfold lessen
  rw [h, subtract_add]

/-- A box nothing was loaded into is given back everywhere it was counted. -/
lemma unbox_spec {bytes : Nat} (h : Owing limits guards a { Flight.none with box := bytes } s) :
    (do
      unreserve 0 bytes
      lessen Build.programMetadata setProgramMetadata bytes
      lessen Build.metadataBytes setMetadataBytes bytes : M Unit).wp
      (fun _ t => Owing limits guards a Flight.none t) (Unwinds limits guards a.id) s := by
  have hid : s.build.id = a.id := congrArg Artifacts.id h.artifacts
  have howed : s.build.owed z { Flight.none with box := bytes } =
      s.build.owed z Flight.none + ⟨0, bytes⟩ := box_owed s.build bytes
  have hcache : Tended limits guards (some (a.id, s.build.owed z Flight.none + ⟨0, bytes⟩))
      s.cache := by
    have h' := h.cache
    rw [howed] at h'
    exact (add_zero (s.build.owed z Flight.none + ⟨0, bytes⟩)) ▸ h'
  have hprogram : s.build.programMetadata = bytes + (s.build.owed z Flight.none).metadata := by
    rw [h.program, howed, Charge.add_metadata, Nat.add_comm]
  have hloads : s.build.summary.loaded = a.loads := h.loaded
  have hmetadata := h.metadata
  have hfloor : a.loads * moduleReserveBytes ≤ (s.build.owed z Flight.none).metadata := by
    apply le_trans (loads_le (z := z) a)
    unfold Build.owed
    rw [h.artifacts, Charge.add_metadata, Charge.add_metadata]
    omega
  rw [← hloads] at hfloor
  obtain ⟨rest, hrest⟩ := Nat.exists_eq_add_of_le
    (show bytes ≤ s.build.summary.metadataBytes by omega)
  obtain ⟨d, hunreserve, hd⟩ := unreserve_spec hcache
  have hrun : unreserve 0 bytes s = (.ok (), { s with cache := d }) := by
    unfold unreserve
    rw [hid, hunreserve]
  have hfinal : (do
      unreserve 0 bytes
      lessen Build.programMetadata setProgramMetadata bytes
      lessen Build.metadataBytes setMetadataBytes bytes : M Unit) s = (.ok (),
        { cache := d, build := setMetadataBytes rest
            (setProgramMetadata (s.build.owed z Flight.none).metadata s.build) }) := by
    have hprogram' := lessen_run (s := { s with cache := d }) setProgramMetadata hprogram
    rw [ErrState.run_bind hrun, ErrState.run_bind hprogram']
    exact lessen_run setMetadataBytes hrest
  unfold ErrState.wp
  rw [hfinal]
  constructor
  · exact h.artifacts
  · show Tended limits guards (some (a.id, s.build.owed z Flight.none + 0)) d
    rw [add_zero]
    exact hd
  · rfl
  · exact h.loaded
  · show rest + s.build.summary.loaded * _ = (s.build.owed z Flight.none).metadata
    omega
  · exact h.attempted
  · exact h.descriptor
  · exact h.scalar
  · exact h.methods

/-- The variants of a region are attached to it. -/
lemma attach_charge {l : List Ready} {n : Loaded} (v : VectorVariants) (rest : List Ready)
    (a : Artifacts) (ha : a.ready = l ++ ⟨none, n⟩ :: rest) :
    ({ a with ready := setVector l.length v a.ready } : Artifacts).charge z =
      a.charge z + v.charge z := by
  unfold Artifacts.charge setVector
  rw [ha, List.modify_eq_set_getElem?]
  ext
  · simp [Ready.charge]
    omega
  · simp [Ready.charge]
    omega

lemma attach_loads {l : List Ready} {n : Loaded} (v : VectorVariants) (rest : List Ready)
    (a : Artifacts) (ha : a.ready = l ++ ⟨none, n⟩ :: rest) :
    ({ a with ready := setVector l.length v a.ready } : Artifacts).loads =
      a.loads + (v.integer.toList ++ v.boolean.toList).length := by
  unfold Artifacts.loads setVector
  rw [ha, List.modify_eq_set_getElem?]
  simp [Ready.loads]
  omega

/-- What the variants in flight are charged is what their box is charged once it is attached. -/
lemma variants_charge (integer boolean : Option Loaded) :
    (⟨z.vectorVariants, integer.toList ++ boolean.toList, 0, false⟩ : Flight).charge z =
      (⟨integer, boolean⟩ : VectorVariants).charge z := by
  unfold Flight.charge VectorVariants.charge
  cases integer <;> cases boolean <;> simp [add_assoc]

/-- The variants of a region are loaded into a box that is attached, or given back when it stays
empty. -/
lemma vectorVariants_spec (h : Owing limits guards a Flight.none s) (function header : Nat)
    {l rest : List Ready} {n : Loaded} (ha : a.ready = l ++ ⟨none, n⟩ :: rest) :
    (vectorVariants limits w function header l.length).wp
      (fun _ t => ∃ a', a'.id = a.id ∧ Owing limits guards a' Flight.none t)
      (Unwinds limits guards a.id) s := by
  have hkeep : ∀ t, Owing limits guards a Flight.none t →
      ∃ a', a'.id = a.id ∧ Owing limits guards a' Flight.none t := fun t ht => ⟨a, rfl, ht⟩
  unfold vectorVariants
  rw [ErrState.wp_get_bind]
  apply ErrState.wp_ite
  · intro _
    exact count_end h (fun _ => rfl) (fun _ => rfl) hkeep
  intro _
  apply strike_then h
  apply wp_then (reserve_wp h rfl 0 z.vectorVariants)
  intro reserved t ⟨_, hyes, hno⟩
  apply ErrState.wp_ite
  swap
  · intro hreserved
    exact count_end (hno (Bool.eq_false_iff.2 hreserved)) (fun _ => rfl) (fun _ => rfl) hkeep
  · intro hreserved
    obtain ⟨-, ht⟩ := hyes hreserved
    apply ErrState.wp_ite
    swap
    · intro _
      apply wp_then (unreserve_wp rfl ht)
      intro _ u ⟨hu, _⟩
      exact count_end hu (fun _ => rfl) (fun _ => rfl) hkeep
    · intro _
      apply ErrState.wp_update_bind.2
      apply wp_then (loadVariant_spec ht.box rfl function header .i64)
      intro ⟨integer, more⟩ u hu
      have hboolean : (loadSecond limits w function header more).wp
          (fun r v => Owing limits guards a
            ⟨z.vectorVariants, integer.toList ++ r.1.toList, 0, false⟩ v)
          (Unwinds limits guards a.id) u := by
        unfold loadSecond
        apply ErrState.wp_ite
        · intro _
          exact loadVariant_spec hu rfl function header .bool
        · intro _
          exact hu.nothing
      apply wp_then hboolean
      intro ⟨boolean, _⟩ v hv
      apply ErrState.wp_ite
      · intro _
        have hlists : v.build.artifacts = a := hv.artifacts
        refine ⟨{ a with ready := setVector l.length ⟨integer, boolean⟩ a.ready }, rfl,
          Owing.move Flight.none hv rfl rfl rfl rfl ?_ rfl rfl ?_ ?_ (fun hs => hs) hv.scalar
            hv.methods⟩
        · rw [← hlists]
          rfl
        · rw [attach_charge _ rest a ha, variants_charge]
          exact add_zero _
        · rw [attach_loads _ rest a ha]
          rfl
      · intro hloaded
        have hnone : integer = none ∧ boolean = none := by
          simpa using hloaded
        obtain ⟨rfl, rfl⟩ := hnone
        exact ErrState.wp_mono (unbox_spec hv) (fun _ t ht => hkeep t ht) (fun _ _ he => he)

/-! ## Activations -/

/-- The activations of one kind among the artifacts. -/
def Artifacts.activations (a : Artifacts) : Which → Activations
  | .scalar => a.scalar
  | .methods => a.methods

/-- Artifacts with other activations of one kind. -/
def Artifacts.setActivations (a : Artifacts) : Which → Activations → Artifacts
  | .scalar, t => { a with scalar := t }
  | .methods, t => { a with methods := t }

/-- One more activation is charged itself, and the lookup table when it is the first. -/
lemma push_charge {t : Activations} (ht : t.Sound) (limit : Nat) (x : Activation) (which : Which) :
    (t.push limit x).charge z which =
      t.charge z which + x.charge z which + ⟨0, if t.ready.isEmpty then limit * 4 else 0⟩ := by
  obtain ⟨ready, lookup⟩ := t
  cases ready with
  | nil =>
      obtain rfl : lookup = [] := ht rfl
      ext <;> simp [Activations.push, Activations.charge]
  | cons y ready =>
      ext
      · simp [Activations.push, Activations.charge]
        omega
      · simp [Activations.push, Activations.charge]
        omega

lemma push_sound (t : Activations) (limit : Nat) (x : Activation) : (t.push limit x).Sound := by
  intro h
  simp [Activations.push] at h

lemma activations_artifacts (b : Build) (which : Which) :
    b.artifacts.activations which = b.activations which := by
  cases which <;> rfl

lemma setActivations_artifacts (b : Build) (which : Which) (t : Activations) :
    (b.setActivations which t).artifacts = b.artifacts.setActivations which t := by
  cases which <;> rfl

/-- The activations of one kind are charged apart from the others. -/
lemma setActivations_charge (a : Artifacts) (which : Which) {t : Activations} {extra : Charge}
    (h : t.charge z which = (a.activations which).charge z which + extra) :
    (a.setActivations which t).charge z = a.charge z + extra := by
  cases which with
  | scalar =>
      simp only [Artifacts.setActivations, Artifacts.charge, h, Artifacts.activations]
      ext <;> simp <;> omega
  | methods =>
      simp only [Artifacts.setActivations, Artifacts.charge, h, Artifacts.activations]
      ext <;> simp <;> omega

lemma setActivations_loads (a : Artifacts) (which : Which) {t : Activations}
    (h : t.ready.length = (a.activations which).ready.length + 1) :
    (a.setActivations which t).loads = a.loads + 1 := by
  cases which with
  | scalar =>
      simp only [Artifacts.setActivations, Artifacts.loads, h, Artifacts.activations]
      omega
  | methods =>
      simp only [Artifacts.setActivations, Artifacts.loads, h, Artifacts.activations]
      omega

/-- What an activation reserves is not saturated. -/
lemma activation_metadata {shape : Shape} {which : Which} {table : Nat}
    (h : saturatingAdd (saturatingAdd (saturatingAdd shape.metadata (which.size z))
      moduleReserveBytes) table < usizeMax) :
    saturatingAdd (saturatingAdd (saturatingAdd shape.metadata (which.size z))
      moduleReserveBytes) table = shape.metadata + which.size z + moduleReserveBytes + table := by
  have hle : ∀ {x y : Nat}, saturatingAdd x y < usizeMax → x < usizeMax := by
    intro x y hxy
    rw [saturatingAdd_of_lt hxy] at hxy
    omega
  have h₁ := hle h
  have h₂ := hle h₁
  rw [saturatingAdd_of_lt h, saturatingAdd_of_lt h₁, saturatingAdd_of_lt h₂]

/-- A loaded activation is kept, with the lookup table when it is the first. -/
lemma loadActivation_spec (h : Owing limits guards a Flight.none s) (which : Which) (shape : Shape) :
    (loadActivation limits w which shape).wp
      (fun _ t => ∃ a', a'.id = a.id ∧ Owing limits guards a' Flight.none t)
      (Unwinds limits guards a.id) s := by
  have hkeep : ∀ t, Owing limits guards a Flight.none t →
      ∃ a', a'.id = a.id ∧ Owing limits guards a' Flight.none t := fun t ht => ⟨a, rfl, ht⟩
  unfold loadActivation
  apply wp_then (mayLoad_spec h)
  intro may t ht
  apply ErrState.wp_ite
  swap
  · intro _
    exact hkeep t ht
  intro _
  apply wp_then (capped_spec ht)
  intro full u hu
  apply ErrState.wp_ite
  · intro _
    exact hkeep u hu
  intro _
  rw [ErrState.wp_get_bind]
  apply ErrState.wp_ite
  · intro _
    exact hkeep u hu
  intro _
  apply wp_then (reserveDescriptor_spec hu rfl)
  intro reserved v ⟨hv, hshell⟩
  apply ErrState.wp_ite
  swap
  · intro _
    exact hkeep v hv
  intro hreserved
  replace hshell := hshell hreserved
  rw [ErrState.wp_get_bind]
  simp only
  apply ErrState.wp_ite
  · intro _
    exact count_end hv (fun _ => rfl) (fun _ => rfl) hkeep
  intro _
  apply strike_then hv
  apply ErrState.wp_update_bind.2
  have hx := hshell.compiles (v.build.compiles + 1)
  split
  · exact count_end hx.weaken (fun _ => rfl) (fun _ => rfl) hkeep
  · exact count_end hx.weaken (fun _ => rfl) (fun _ => rfl) hkeep
  · rename_i compiled _
    apply wp_then (chargeAndLoad_spec hx rfl _ _ _)
    intro loaded x ⟨hdescriptor, hyes, hno⟩
    apply ErrState.wp_ite
    swap
    · intro hloaded
      exact hkeep x (hno (Bool.eq_false_iff.2 hloaded)).weaken
    intro hloaded
    obtain ⟨hsize, hy⟩ := hyes hloaded
    rw [ErrState.wp_update]
    have hsound : (a.activations which).Sound := by
      cases which with
      | scalar => exact h.scalar
      | methods => exact h.methods
    have hactivations : v.build.activations which = a.activations which := by
      rw [← activations_artifacts]
      exact congrArg (·.activations which) hv.artifacts
    have hlimit : v.build.functionLimit = a.functionLimit :=
      congrArg Artifacts.functionLimit hv.artifacts
    have hx' : x.build.artifacts = a := hy.artifacts
    have hpush := push_charge (z := z) hsound a.functionLimit
      ⟨shape, compiled.bytes, pageCeil compiled.bytes⟩ which
    refine ⟨a.setActivations which ((a.activations which).push a.functionLimit
      ⟨shape, compiled.bytes, pageCeil compiled.bytes⟩), ?_, ?_⟩
    · cases which <;> rfl
    apply Owing.recordLoaded compiled.bytes Flight.none hy
    · cases which <;> rfl
    · cases which <;> rfl
    · cases which <;> rfl
    · cases which <;> rfl
    · rw [setActivations_artifacts, ← activations_artifacts, hx', ← hx']
      rfl
    · cases which <;> rfl
    · rfl
    · rw [add_assoc] at hpush
      rw [setActivations_charge a which hpush, activation_metadata hsize, hactivations, hlimit]
      ext
      · simp [Activation.charge, Flight.charge, Flight.none]
      · simp [Activation.charge, Flight.charge, Flight.none]
    · rw [setActivations_loads a which (by simp [Activations.push])]
      rfl
    · rw [activation_metadata hsize]
      omega
    · exact hy.descriptor (.inr rfl)
    · cases which with
      | scalar => exact push_sound _ _ _
      | methods => exact h.scalar
    · cases which with
      | scalar => exact h.methods
      | methods => exact push_sound _ _ _

/-! ## The build -/

variable {id : Nat}

/-- The build owes what it has kept, and nothing is in flight. -/
def Accounted (limits : Limits z) (guards : List Program) (id : Nat) (s : Work) : Prop :=
  ∃ a, a.id = id ∧ Owing limits guards a Flight.none s

/-- A step of the build between two of its loads keeps its accounts. -/
def Keeps (limits : Limits z) (guards : List Program) (id : Nat) (m : M α) : Prop :=
  ∀ s, Accounted limits guards id s →
    m.wp (fun _ t => Accounted limits guards id t) (Unwinds limits guards id) s

namespace Keeps

lemma pure (x : α) : Keeps limits guards id (Pure.pure x : M α) := fun _ h => h

lemma bind {m : M α} {g : α → M β} (hm : Keeps limits guards id m)
    (hg : ∀ x, Keeps limits guards id (g x)) : Keeps limits guards id (m >>= g) :=
  fun s h => wp_then (hm s h) fun x t ht => hg x t ht

lemma get : Keeps limits guards id (ErrState.get : M Work) := fun _ h => h

lemma ite {c : Prop} [Decidable c] {m m' : M α} (hm : Keeps limits guards id m)
    (hm' : Keeps limits guards id m') : Keeps limits guards id (if c then m else m') := by
  intro s h
  apply ErrState.wp_ite
  · exact fun _ => hm s h
  · exact fun _ => hm' s h

lemma count {g : NativeSummary → NativeSummary} (hloaded : ∀ n, (g n).loaded = n.loaded)
    (hmetadata : ∀ n, (g n).metadataBytes = n.metadataBytes) :
    Keeps limits guards id (Native.count g) := by
  intro s ⟨a, ha, h⟩
  exact ⟨a, ha, h.count hloaded hmetadata⟩

/-- Counting, then going on. -/
lemma counted {g : NativeSummary → NativeSummary} {k : Unit → M α}
    (hloaded : ∀ n, (g n).loaded = n.loaded) (hmetadata : ∀ n, (g n).metadataBytes = n.metadataBytes)
    (hk : Keeps limits guards id (k ())) : Keeps limits guards id (Native.count g >>= k) :=
  bind (count hloaded hmetadata) fun _ => hk

lemma strike {site : Site} : Keeps limits guards id (Native.strike w site) := by
  intro s ⟨a, ha, h⟩
  unfold ErrState.wp Native.strike
  split_ifs
  · exact ha ▸ h.unwinds
  · exact ⟨a, ha, h⟩

lemma capped : Keeps limits guards id (Native.capped limits w) := by
  intro s ⟨a, ha, h⟩
  exact ErrState.wp_mono (capped_spec h) (fun _ t ht => ⟨a, ha, ht⟩) (fun _ _ he => he)

lemma loadActivation (which : Which) (shape : Shape) :
    Keeps limits guards id (Native.loadActivation limits w which shape) := by
  intro s ⟨a, ha, h⟩
  apply ErrState.wp_mono (loadActivation_spec h which shape)
  · intro _ t ⟨a', ha', ht⟩
    exact ⟨a', ha'.trans ha, ht⟩
  · intro _ _ he
    exact ha ▸ he

end Keeps

/-- An admitted region is loaded, and its variants only into the region that was just loaded. -/
lemma loadCandidate_keeps (function header : Nat) (region : Region) :
    Keeps limits guards id (loadCandidate limits w function header region) := by
  intro s ⟨a, ha, h⟩
  subst ha
  have hlists : s.build.ready = a.ready := congrArg Artifacts.ready h.artifacts
  unfold loadCandidate
  rw [ErrState.wp_get_bind]
  apply wp_then (load_spec h region)
  intro _ t ht
  rw [ErrState.wp_get_bind]
  obtain ht | ⟨n, ht⟩ := ht
  · have htlists : t.build.ready = a.ready := congrArg Artifacts.ready ht.artifacts
    apply ErrState.wp_ite
    · intro ⟨_, hlonger⟩
      rw [hlists, htlists] at hlonger
      exact absurd hlonger (Nat.lt_irrefl _)
    · intro _
      exact ⟨a, rfl, ht⟩
  · apply ErrState.wp_ite
    · intro _
      rw [hlists]
      apply ErrState.wp_mono (vectorVariants_spec ht function header rfl)
      · intro _ u ⟨a', ha', hu⟩
        exact ⟨a', ha', hu⟩
      · intro _ _ he
        exact he
    · intro _
      exact ⟨{ a with ready := a.ready ++ [⟨none, n⟩] }, rfl, ht⟩

lemma loadAdmitted_keeps (which : Which) (shape : Option Shape) :
    Keeps limits guards id (loadAdmitted limits w which shape) := by
  cases shape with
  | none => exact Keeps.pure _
  | some shape =>
      refine Keeps.counted (fun _ => rfl) (fun _ => rfl) ?_
      cases which with
      | scalar => exact Keeps.loadActivation .scalar shape
      | methods => exact Keeps.loadActivation .methods shape

lemma buildHeader_keeps (function remaining header : Nat) :
    Keeps limits guards id (buildHeader limits w function remaining header) := by
  unfold buildHeader
  apply Keeps.bind Keeps.capped
  intro full
  apply Keeps.ite
  · exact Keeps.counted (fun _ => rfl) (fun _ => rfl) (Keeps.pure _)
  refine Keeps.counted (fun _ => rfl) (fun _ => rfl) ?_
  apply Keeps.bind Keeps.strike
  intro _
  split
  · refine Keeps.counted (fun _ => rfl) (fun _ => rfl) ?_
    exact Keeps.bind (loadCandidate_keeps function header _) fun _ => Keeps.pure _
  · exact Keeps.counted (fun _ => rfl) (fun _ => rfl) (Keeps.pure _)
  · exact Keeps.pure _
  · exact Keeps.counted (fun _ => rfl) (fun _ => rfl) (Keeps.pure _)
  · exact Keeps.counted (fun _ => rfl) (fun _ => rfl) (Keeps.pure _)

lemma buildHeaders_keeps (function remaining : Nat) (headers : List Nat) :
    Keeps limits guards id (buildHeaders limits w function remaining headers) := by
  induction headers with
  | nil => exact Keeps.pure _
  | cons header rest ih =>
      apply Keeps.bind (buildHeader_keeps function remaining header)
      intro ⟨stop, more⟩
      apply Keeps.ite
      · exact Keeps.pure _
      · exact Keeps.ite ih (Keeps.pure _)

lemma buildRecursion_keeps (function : Nat) (f : Function) (work : Nat) :
    Keeps limits guards id (buildRecursion limits w function f work) := by
  unfold buildRecursion
  apply Keeps.ite
  · apply Keeps.ite
    · apply Keeps.bind Keeps.strike
      intro _
      exact Keeps.bind (loadAdmitted_keeps .scalar _) fun _ => Keeps.pure _
    · exact Keeps.counted (fun _ => rfl) (fun _ => rfl) (Keeps.pure _)
  · exact Keeps.pure _

lemma buildMethods_keeps (function work : Nat) :
    Keeps limits guards id (buildMethods limits w function work) := by
  unfold buildMethods
  apply Keeps.bind Keeps.strike
  intro _
  exact Keeps.bind (loadAdmitted_keeps .methods _) fun _ => Keeps.pure _

lemma buildScanned_keeps (function remaining : Nat) (f : Function) (headers : List Nat)
    (work : Nat) : Keeps limits guards id (buildScanned limits w function remaining f headers work) := by
  unfold buildScanned
  apply Keeps.bind (buildRecursion_keeps function f work)
  intro work
  apply Keeps.bind (buildMethods_keeps function work)
  intro work
  apply Keeps.ite
  · exact Keeps.pure _
  apply Keeps.bind Keeps.strike
  intro _
  split
  · exact Keeps.counted (fun _ => rfl) (fun _ => rfl) (Keeps.pure _)
  · exact Keeps.counted (fun _ => rfl) (fun _ => rfl) (Keeps.pure _)
  · exact Keeps.bind (buildHeaders_keeps function remaining _) fun _ => Keeps.pure _

lemma buildFunction_keeps (function remaining work : Nat) :
    Keeps limits guards id (buildFunction limits w function remaining work) := by
  unfold buildFunction
  refine Keeps.counted (fun _ => rfl) (fun _ => rfl) ?_
  split
  · exact Keeps.pure _
  apply Keeps.bind Keeps.get
  intro s
  apply Keeps.ite
  · exact Keeps.counted (fun _ => rfl) (fun _ => rfl) (Keeps.pure _)
  apply Keeps.ite
  · exact Keeps.counted (fun _ => rfl) (fun _ => rfl) (Keeps.pure _)
  apply Keeps.ite
  · exact Keeps.counted (fun _ => rfl) (fun _ => rfl) (Keeps.pure _)
  apply Keeps.bind Keeps.strike
  intro _
  split
  · exact Keeps.counted (fun _ => rfl) (fun _ => rfl) (Keeps.pure _)
  · exact Keeps.counted (fun _ => rfl) (fun _ => rfl) (Keeps.pure _)
  · apply Keeps.ite
    · exact Keeps.counted (fun _ => rfl) (fun _ => rfl) (Keeps.pure _)
    apply Keeps.ite
    · exact Keeps.counted (fun _ => rfl) (fun _ => rfl) (Keeps.pure _)
    · refine Keeps.counted (fun _ => rfl) (fun _ => rfl) ?_
      exact buildScanned_keeps function remaining _ _ _

lemma buildFunctions_keeps (functions : List Nat) (work : Nat) :
    Keeps limits guards id (buildFunctions limits w functions work) := by
  induction functions generalizing work with
  | nil => exact Keeps.pure _
  | cons function rest ih =>
      apply Keeps.bind Keeps.capped
      intro full
      apply Keeps.ite
      · exact Keeps.count (fun _ => rfl) (fun _ => rfl)
      apply Keeps.bind Keeps.get
      intro s
      apply Keeps.ite
      · exact Keeps.count (fun _ => rfl) (fun _ => rfl)
      apply Keeps.bind (buildFunction_keeps function _ work)
      intro ⟨work, stop⟩
      exact Keeps.ite (Keeps.pure _) (ih work)

/-! ## The end of a build -/

/-- Artifacts nothing was loaded for are charged nothing. -/
lemma charge_eq_zero {a : Artifacts} (hloads : a.loads = 0) (hscalar : a.scalar.Sound)
    (hmethods : a.methods.Sound) : a.charge z = 0 := by
  have hready : a.ready = [] := by
    cases hr : a.ready with
    | nil => rfl
    | cons r rest =>
        unfold Artifacts.loads at hloads
        rw [hr, List.map_cons, List.sum_cons, Ready.loads] at hloads
        omega
  have hs : a.scalar.ready = [] := List.eq_nil_of_length_eq_zero (by
    unfold Artifacts.loads at hloads
    omega)
  have hm : a.methods.ready = [] := List.eq_nil_of_length_eq_zero (by
    unfold Artifacts.loads at hloads
    omega)
  unfold Artifacts.charge Activations.charge
  rw [hready, hs, hm, hscalar hs, hmethods hm]
  rfl

/-- The program of a build is charged what the build owes. -/
lemma program_charge (h : Owing limits guards a Flight.none s) (hdescriptor : s.build.descriptor = true) :
    s.build.program.charge z = s.build.owed z Flight.none := by
  have hlists : s.build.artifacts = a := h.artifacts
  have hscalar : s.build.scalar.Sound := by
    have := h.scalar
    rwa [← hlists] at this
  have hmethods : s.build.methods.Sound := by
    have := h.methods
    rwa [← hlists] at this
  have hempty : ∀ {t : Activations} (which : Which), t.Sound → t.ready = [] →
      t.charge z which = 0 := by
    intro t which ht hready
    unfold Activations.charge
    rw [hready, ht hready]
    rfl
  have hflight : Flight.none.charge z = 0 := rfl
  unfold Build.program Build.owed Artifacts.charge shellCharge
  rw [hdescriptor, hflight, add_zero, if_pos rfl]
  simp only
  split_ifs with hm hs
  · rfl
  · have hzero := hempty .methods hmethods (not_not.1 hm)
    show (s.build.ready.map (Ready.charge z)).sum + s.build.scalar.charge z .scalar + _ =
      (s.build.ready.map (Ready.charge z)).sum + s.build.scalar.charge z .scalar +
        s.build.methods.charge z .methods + _
    rw [hzero, add_zero]
  · have hzero := hempty .methods hmethods (not_not.1 hm)
    have hzero' := hempty .scalar hscalar (not_not.1 hs)
    show (s.build.ready.map (Ready.charge z)).sum + _ =
      (s.build.ready.map (Ready.charge z)).sum + s.build.scalar.charge z .scalar +
        s.build.methods.charge z .methods + _
    rw [hzero, hzero', add_zero, add_zero]

/-- A finished build: its entry is charged what its program is, or nothing when nothing was
loaded. -/
structure Finished (limits : Limits z) (guards : List Program) (id : Nat) (s : Work) : Prop where
  id_eq : s.build.id = id
  cache : Tended limits guards
    (some (id, if s.build.summary.loaded = 0 then 0 else s.build.program.charge z)) s.cache
  descriptor : s.build.summary.loaded ≠ 0 → s.build.descriptor = true

/-- A build ends finished, or it unwinds with its entry still marked; it never underflows. -/
theorem build_spec (h : Accounted limits guards id s) :
    (build limits w).wp (fun _ t => Finished limits guards id t) (Unwinds limits guards id) s := by
  unfold build
  apply wp_then (buildFunctions_keeps (List.range w.functions) 0 s h)
  intro _ t ⟨a, ha, ht⟩
  subst ha
  have hid : t.build.id = a.id := congrArg Artifacts.id ht.artifacts
  have hcache : Tended limits guards (some (a.id, t.build.owed z Flight.none)) t.cache := by
    have h' := ht.cache
    rwa [show Flight.none.extra = 0 from rfl, add_zero] at h'
  have hloads : t.build.summary.loaded = a.loads := ht.loaded
  rw [ErrState.wp_get_bind]
  apply ErrState.wp_ite
  · intro ⟨hnone, hdescriptor⟩
    have hzero : a.charge z = 0 := charge_eq_zero (hloads ▸ hnone) ht.scalar ht.methods
    have howed : t.build.owed z Flight.none = 0 + ⟨0, z.programDescriptor⟩ := by
      unfold Build.owed
      rw [ht.artifacts, hzero, hdescriptor]
      rfl
    have hbytes : t.build.metadataBytes = z.programDescriptor + 0 := by
      have hmetadata := ht.metadata
      rw [hnone, ht.program, howed, Nat.zero_mul, Nat.add_zero] at hmetadata
      show t.build.summary.metadataBytes = _
      rw [hmetadata]
      simp
    rw [howed] at hcache
    obtain ⟨d, hunreserve, hd⟩ := unreserve_spec hcache
    apply ErrState.wp_update_bind.2
    unfold ErrState.wp
    have hrun : unreserve 0 z.programDescriptor
        { t with build := { t.build with descriptor := false } } =
        (.ok (), { cache := d, build := { t.build with descriptor := false } }) := by
      unfold unreserve
      rw [show ({ t with build := { t.build with descriptor := false } } : Work).build.id = a.id
        from hid, hunreserve]
    have hlessen : lessen Build.metadataBytes setMetadataBytes z.programDescriptor
        { cache := d, build := { t.build with descriptor := false } } = (.ok (),
        { cache := d, build := setMetadataBytes 0 { t.build with descriptor := false } }) :=
      lessen_run setMetadataBytes hbytes
    rw [ErrState.run_bind hrun, hlessen]
    constructor
    · exact hid
    · show Tended limits guards (some (a.id, if t.build.summary.loaded = 0 then 0 else _)) d
      rw [if_pos hnone]
      exact hd
    · intro hsome
      exact absurd hnone hsome
  · intro hkept
    constructor
    · exact hid
    · split_ifs with hnone
      · have hdescriptor : t.build.descriptor = false := by
          cases hd : t.build.descriptor with
          | false => rfl
          | true => exact absurd ⟨hnone, hd⟩ hkept
        have hzero : a.charge z = 0 := charge_eq_zero (hloads ▸ hnone) ht.scalar ht.methods
        have howed : t.build.owed z Flight.none = 0 := by
          unfold Build.owed
          rw [ht.artifacts, hzero, hdescriptor]
          rfl
        rwa [howed] at hcache
      · rw [program_charge ht (ht.descriptor (.inl hnone))]
        exact hcache
    · intro hsome
      exact ht.descriptor (.inl hsome)

end Native

end Rnx
