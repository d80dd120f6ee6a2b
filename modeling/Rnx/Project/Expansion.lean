import Mathlib.Data.List.Nodup
import Mathlib.Data.List.Perm.Subperm
import Mathlib.Order.Lattice
import Rnx.Project.Wire

/-!
# What an expansion mounts

An alias path of a source graph is a chain of aliases that leads from the entry, through manifests
that are read, to a path, whatever the limits: along a cycle there is one of every length.  When
`expand` returns, its mounts are the nonempty alias paths in lexicographic order, which is the
order of a depth-first walk that takes the aliases in order.  It fails when some alias path ends at
a fault, or there is a 257th one, or a 65th manifest.
-/

namespace Rnx

namespace Project

open ErrState

variable {P : Type} (F : Paths P) (read : P → Except String (Package P))

/-- The alias paths of the graph from a path with the given ancestry: the aliases, what they lead
to, and the manifests passed. -/
inductive AliasPath : P → List P → List String → P → List P → Prop
  | here {path : P} {ancestry : List P} : AliasPath path ancestry [] path ancestry
  | there {path canonical child target : P} {package : Package P} {ancestry reached : List P}
      {name : String} {rest : List String} :
      F.canonicalize path = .ok canonical → read canonical = .ok package →
      (name, child) ∈ package.dependencies →
      AliasPath child (ancestry ++ [canonical]) rest target reached →
      AliasPath path ancestry (name :: rest) target reached

/-- What stops an expansion at an alias path: it is longer than 16, its path or its manifest cannot
be read, it comes back to a manifest of its own ancestry, or the manifest has a relative root or
too many dependencies. -/
inductive Fault (aliases : List String) (path : P) (ancestry : List P) : Prop
  | deep (h : 16 < aliases.length)
  | missing {e : String} (h : F.canonicalize path = .error e)
  | cycle {canonical : P} (h : F.canonicalize path = .ok canonical) (hmem : canonical ∈ ancestry)
  | unread {canonical : P} {e : String} (h : F.canonicalize path = .ok canonical)
      (hread : read canonical = .error e)
  | relative {canonical : P} {package : Package P} (h : F.canonicalize path = .ok canonical)
      (hread : read canonical = .ok package) (hroot : F.isAbsolute package.root = false)
  | wide {canonical : P} {package : Package P} (h : F.canonicalize path = .ok canonical)
      (hread : read canonical = .ok package) (hwide : 256 < package.dependencies.length)

/-- A manifest the graph leads to. -/
def Reaches (entry canonical : P) : Prop :=
  ∃ aliases path ancestry, AliasPath F read entry [] aliases path ancestry ∧
    F.canonicalize path = .ok canonical

/-- A mount for a nonempty alias path, with the root of the manifest it leads to. -/
def Mounted (entry : P) (mount : Mount P) : Prop :=
  mount.aliases ≠ [] ∧ ∃ path ancestry canonical package,
    AliasPath F read entry [] mount.aliases path ancestry ∧
    F.canonicalize path = .ok canonical ∧ read canonical = .ok package ∧ mount.root = package.root

/-- There are 257 nonempty alias paths. -/
def TooManyMounts (entry : P) : Prop :=
  ∃ paths : List (List String), paths.Nodup ∧ paths.length = 257 ∧ ∀ aliases ∈ paths,
    aliases ≠ [] ∧ ∃ path ancestry, AliasPath F read entry [] aliases path ancestry

/-- There are 65 manifests. -/
def TooManyManifests (entry : P) : Prop :=
  ∃ manifests : List P, manifests.Nodup ∧ manifests.length = 65 ∧
    ∀ canonical ∈ manifests, Reaches F read entry canonical

/-- What an expansion fails for. -/
def Refuses (entry : P) : Prop :=
  (∃ aliases path ancestry, AliasPath F read entry [] aliases path ancestry ∧
    Fault F read aliases path ancestry) ∨
  TooManyMounts F read entry ∨ TooManyManifests F read entry

variable {F read} {entry path canonical child : P} {package : Package P}
  {before ancestry : List P} {aliases : List String} {s t : GraphState P}

lemma AliasPath.snoc {name : String} (h : AliasPath F read entry before aliases path ancestry)
    (hcanonical : F.canonicalize path = .ok canonical) (hread : read canonical = .ok package)
    (hmem : (name, child) ∈ package.dependencies) :
    AliasPath F read entry before (aliases ++ [name]) child (ancestry ++ [canonical]) := by
  induction h with
  | here => exact .there hcanonical hread hmem .here
  | there h₁ h₂ h₃ _ ih => exact .there h₁ h₂ h₃ (ih hcanonical)

/-- A place where every check passes has no fault. -/
lemma not_fault (hdepth : aliases.length ≤ 16) (hcanonical : F.canonicalize path = .ok canonical)
    (hcycle : canonical ∉ ancestry) (hread : read canonical = .ok package)
    (hroot : F.isAbsolute package.root = true) (hwide : package.dependencies.length ≤ 256) :
    ¬ Fault F read aliases path ancestry := by
  rintro (h | h | ⟨h, hmem⟩ | ⟨h, hr⟩ | ⟨h, hr, hrel⟩ | ⟨h, hr, hw⟩)
  · omega
  all_goals rw [hcanonical] at h
  · cases h
  · cases h
    exact hcycle hmem
  all_goals
    cases h
    rw [hread] at hr
    cases hr
  · rw [hroot] at hrel
    cases hrel
  · omega

/-! ## The invariant of the walk -/

/-- The table holds manifests that were read, each once, and the mounts so far are alias paths in
order. -/
structure Walking (F : Paths P) (read : P → Except String (Package P)) (entry : P)
    (s : GraphState P) : Prop where
  packages : ∀ p ∈ s.packages, read p.1 = .ok p.2 ∧ Reaches F read entry p.1
  reads : s.reads = s.packages.map Prod.fst
  once : s.reads.Nodup
  few : s.packages.length ≤ 64
  mounts : ∀ m ∈ s.mounts, Mounted F read entry m
  order : (s.mounts.map Mount.aliases).Pairwise (· < ·)
  count : s.mounts.length ≤ 256
  depth : ∀ m ∈ s.mounts, m.aliases.length ≤ 16

/-- What a walk that fails leaves: no manifest was read twice, and the graph is one to refuse. -/
def Stopped (F : Paths P) (read : P → Except String (Package P)) (entry : P) (s : GraphState P) :
    Prop :=
  s.reads.Nodup ∧ Refuses F read entry

/-- A place of the graph the walk has passed. -/
structure Covered (F : Paths P) (read : P → Except String (Package P)) (s : GraphState P)
    (aliases : List String) (path : P) (ancestry : List P) : Prop where
  sound : ¬ Fault F read aliases path ancestry
  mounted : ∀ canonical package, F.canonicalize path = .ok canonical →
    read canonical = .ok package → aliases ≠ [] → ⟨aliases, package.root⟩ ∈ s.mounts
  listed : ∀ canonical, F.canonicalize path = .ok canonical → canonical ∈ s.reads

lemma Covered.mono (h : Covered F read s aliases path ancestry) (hmounts : s.mounts ⊆ t.mounts)
    (hreads : s.reads ⊆ t.reads) : Covered F read t aliases path ancestry :=
  ⟨h.sound, fun c p hc hp hne => hmounts (h.mounted c p hc hp hne),
    fun c hc => hreads (h.listed c hc)⟩

/-- What a visit adds: mounts below its own aliases, and manifests. -/
structure Extends (s t : GraphState P) (below : List String → Prop) : Prop where
  ancestry : t.ancestry = s.ancestry
  mounts : ∃ added, t.mounts = s.mounts ++ added ∧ ∀ m ∈ added, below m.aliases
  reads : s.reads ⊆ t.reads

lemma Extends.trans {below beyond : List String → Prop} {u : GraphState P}
    (h : Extends s t below) (h' : Extends t u beyond) :
    Extends s u fun a => below a ∨ beyond a := by
  refine ⟨h'.ancestry.trans h.ancestry, ?_, fun c hc => h'.reads (h.reads hc)⟩
  obtain ⟨added, hadded, hbelow⟩ := h.mounts
  obtain ⟨more, hmore, hbeyond⟩ := h'.mounts
  refine ⟨added ++ more, by rw [hmore, hadded, List.append_assoc], ?_⟩
  intro m hm
  exact (List.mem_append.1 hm).imp (hbelow m) (hbeyond m)

lemma Extends.mono {below beyond : List String → Prop} (h : Extends s t below)
    (himp : ∀ a, below a → beyond a) : Extends s t beyond := by
  obtain ⟨added, hadded, hbelow⟩ := h.mounts
  exact ⟨h.ancestry, ⟨added, hadded, fun m hm => himp _ (hbelow m hm)⟩, h.reads⟩

/-- What the dependencies of a manifest add, once the manifest is left again. -/
lemma Extends.leave {below : List String → Prop}
    (h : Extends { s with ancestry := s.ancestry ++ [canonical] } t below) :
    Extends s { t with ancestry := t.ancestry.dropLast } below := by
  refine ⟨?_, h.mounts, h.reads⟩
  show t.ancestry.dropLast = s.ancestry
  rw [h.ancestry, List.dropLast_concat]

lemma Extends.subset {below : List String → Prop} (h : Extends s t below) :
    s.mounts ⊆ t.mounts := by
  obtain ⟨added, hadded, -⟩ := h.mounts
  rw [hadded]
  exact List.subset_append_left _ _

/-- The mounts so far come before the aliases. -/
def Before (s : GraphState P) (aliases : List String) : Prop :=
  ∀ m ∈ s.mounts, m.aliases < aliases

lemma lt_append {a b : List String} (h : b ≠ []) : a < a ++ b := by
  induction a with
  | nil =>
    obtain ⟨x, xs, rfl⟩ := List.exists_cons_of_ne_nil h
    exact List.nil_lt_cons x xs
  | cons x xs ih => exact List.cons_lt_cons_self.2 ih

lemma append_lt {a b c : List String} (h : b < c) : a ++ b < a ++ c := by
  induction a with
  | nil => exact h
  | cons x xs ih => exact List.cons_lt_cons_self.2 ih

/-! ## One visit -/

lemma wp_resolve [DecidableEq P] {edge : String} (read : P → Except String (Package P))
    (aliases : List String) :
    wp (resolve F edge path)
      (fun canonical t => t = s ∧ F.canonicalize path = .ok canonical ∧ canonical ∉ s.ancestry)
      (fun _ t => t = s ∧ Fault F read aliases path s.ancestry) s := by
  unfold resolve
  refine wp_ofExcept_bind ?_ fun canonical hcanonical => ?_
  · intro e he
    cases h : F.canonicalize path with
    | error e => exact ⟨rfl, .missing h⟩
    | ok canonical =>
      rw [h] at he
      cases he
  · have h : F.canonicalize path = .ok canonical := by
      cases h : F.canonicalize path with
      | error e =>
        rw [h] at hcanonical
        cases hcanonical
      | ok c =>
        rw [h] at hcanonical
        cases hcanonical
        rfl
    refine wp_get_bind.2 (wp_guardWith_bind (fun hmem => ?_) fun hmem => ?_)
    · exact ⟨rfl, .cycle h (not_not.1 hmem)⟩
    · exact wp_pure _ |>.2 ⟨rfl, h, hmem⟩

lemma wp_package [DecidableEq P] {edge : String} (hs : Walking F read entry s)
    (hreach : Reaches F read entry canonical) :
    wp (Project.package read edge canonical)
      (fun package t => Walking F read entry t ∧ read canonical = .ok package ∧
        canonical ∈ t.reads ∧ t.mounts = s.mounts ∧ t.ancestry = s.ancestry ∧ s.reads ⊆ t.reads)
      (fun _ t => t.reads.Nodup ∧ ((∃ e, read canonical = .error e) ∨
        TooManyManifests F read entry)) s := by
  unfold Project.package
  refine wp_get_bind.2 ?_
  cases hlookup : s.packages.lookup canonical with
  | some package =>
    obtain ⟨l₁, l₂, hl, -⟩ := List.lookup_eq_some_iff.1 hlookup
    have hmem : (canonical, package) ∈ s.packages := by
      rw [hl]
      exact List.mem_append_right _ List.mem_cons_self
    refine ⟨hs, (hs.packages _ hmem).1, ?_, rfl, rfl, List.Subset.refl _⟩
    rw [hs.reads]
    exact List.mem_map_of_mem hmem
  | none =>
    have hnew : canonical ∉ s.reads := by
      rw [hs.reads, List.mem_map]
      rintro ⟨p, hp, rfl⟩
      simpa using List.lookup_eq_none_iff.1 hlookup p hp
    have honce : (s.reads ++ [canonical]).Nodup :=
      List.nodup_append_comm.1 (List.nodup_cons.2 ⟨hnew, hs.once⟩)
    have hreached : ∀ c ∈ s.reads, Reaches F read entry c := by
      intro c hc
      rw [hs.reads] at hc
      obtain ⟨p, hp, rfl⟩ := List.mem_map.1 hc
      exact (hs.packages p hp).2
    have hfew := hs.few
    refine wp_guardWith_bind (fun hfull => ⟨hs.once, .inr ?_⟩) fun hroom => ?_
    · refine ⟨canonical :: s.reads, List.nodup_cons.2 ⟨hnew, hs.once⟩, ?_, ?_⟩
      · rw [List.length_cons, hs.reads, List.length_map]
        omega
      · exact List.forall_mem_cons.2 ⟨hreach, hreached⟩
    · refine wp_update_bind.2 (wp_ofExcept_bind (fun e he => ⟨honce, .inl ⟨e, he⟩⟩) fun package hp => ?_)
      refine wp_update_bind.2 ⟨?_, hp, ?_, rfl, rfl, List.subset_append_left _ _⟩
      · exact
          { packages := by
              intro p hmem
              obtain hmem | hmem := List.mem_append.1 hmem
              · exact hs.packages p hmem
              · rw [List.mem_singleton.1 hmem]
                exact ⟨hp, hreach⟩
            reads := by
              show s.reads ++ [canonical] = (s.packages ++ [(canonical, package)]).map Prod.fst
              rw [hs.reads, List.map_append]
              rfl
            once := honce
            few := by
              show (s.packages ++ [(canonical, package)]).length ≤ 64
              rw [List.length_append, List.length_singleton]
              omega
            mounts := hs.mounts
            order := hs.order
            count := hs.count
            depth := hs.depth }
      · exact List.mem_append_right _ (List.mem_singleton.2 rfl)

/-- The mount of a visit keeps the invariant. -/
lemma Walking.mount (hs : Walking F read entry s) (hne : aliases ≠ [])
    (hpath : AliasPath F read entry [] aliases path ancestry)
    (hcanonical : F.canonicalize path = .ok canonical) (hread : read canonical = .ok package)
    (hbefore : Before s aliases) (hroom : s.mounts.length ≠ 256) (hdepth : aliases.length ≤ 16) :
    Walking F read entry { s with mounts := s.mounts ++ [⟨aliases, package.root⟩] } where
  packages := hs.packages
  reads := hs.reads
  once := hs.once
  few := hs.few
  mounts := by
    intro m hm
    obtain hm | hm := List.mem_append.1 hm
    · exact hs.mounts m hm
    · rw [List.mem_singleton.1 hm]
      exact ⟨hne, path, ancestry, canonical, package, hpath, hcanonical, hread, rfl⟩
  order := by
    rw [List.map_append, List.pairwise_append]
    refine ⟨hs.order, List.pairwise_singleton _ _, ?_⟩
    intro a ha b hb
    obtain ⟨m, hm, rfl⟩ := List.mem_map.1 ha
    rw [List.mem_singleton.1 hb]
    exact hbefore m hm
  count := by
    have := hs.count
    rw [List.length_append, List.length_singleton]
    omega
  depth := by
    intro m hm
    obtain hm | hm := List.mem_append.1 hm
    · exact hs.depth m hm
    · rw [List.mem_singleton.1 hm]
      exact hdepth

lemma mounting_reads (root : P) : (mounting aliases root s).reads = s.reads := by
  unfold mounting
  split_ifs <;> rfl

lemma mem_mounting (root : P) (hne : aliases ≠ []) :
    ⟨aliases, root⟩ ∈ (mounting aliases root s).mounts := by
  unfold mounting
  rw [if_neg hne]
  exact List.mem_append_right _ (List.mem_singleton.2 rfl)

lemma extends_mounting (aliases : List String) (root : P) (hmounts : t.mounts = s.mounts)
    (hancestry : t.ancestry = s.ancestry) (hreads : s.reads ⊆ t.reads) :
    Extends s (mounting aliases root t) (· = aliases) := by
  unfold mounting
  split_ifs
  · exact ⟨hancestry, ⟨[], by rw [hmounts, List.append_nil], List.forall_mem_nil _⟩, hreads⟩
  · refine ⟨hancestry, ⟨[⟨aliases, root⟩], by rw [hmounts], ?_⟩, hreads⟩
    intro m hm
    rw [List.mem_singleton.1 hm]

/-- A path that comes after 256 mounts is the 257th. -/
lemma Walking.tooMany (hs : Walking F read entry s) (hne : aliases ≠ [])
    (hpath : AliasPath F read entry [] aliases path ancestry) (hbefore : Before s aliases)
    (hfull : s.mounts.length = 256) : TooManyMounts F read entry := by
  refine ⟨aliases :: s.mounts.map Mount.aliases, List.nodup_cons.2 ⟨?_, ?_⟩, ?_, ?_⟩
  · intro hmem
    obtain ⟨m, hm, heq⟩ := List.mem_map.1 hmem
    exact lt_irrefl _ (heq ▸ hbefore m hm)
  · exact hs.order.imp fun h => ne_of_lt h
  · rw [List.length_cons, List.length_map, hfull]
  · refine List.forall_mem_cons.2 ⟨⟨hne, path, ancestry, hpath⟩, ?_⟩
    intro a ha
    obtain ⟨m, hm, rfl⟩ := List.mem_map.1 ha
    obtain ⟨hne', path', ancestry', _, _, hpath', -⟩ := hs.mounts m hm
    exact ⟨hne', path', ancestry', hpath'⟩

/-! ## The whole walk -/

/-- A visit passes every alias path below its own. -/
structure Passes (F : Paths P) (read : P → Except String (Package P)) (entry path : P)
    (aliases : List String) (s t : GraphState P) : Prop where
  walking : Walking F read entry t
  extends_below : Extends s t (aliases <+: ·)
  covers : ∀ rest target reached, AliasPath F read path s.ancestry rest target reached →
    Covered F read t (aliases ++ rest) target reached

section Loop

variable [DecidableEq P] {dependencies : List (String × P)}

/-- The dependencies of a manifest, when each is visited as it should be. -/
lemma wp_dependencies (hsorted : dependencies.Pairwise fun a b => a.1 < b.1)
    (hvisit : ∀ d ∈ dependencies, ∀ s : GraphState P, Walking F read entry s →
      s.ancestry = ancestry → Before s (aliases ++ [d.1]) →
      wp (visit F read d.2 (aliases ++ [d.1]))
        (fun _ t => Passes F read entry d.2 (aliases ++ [d.1]) s t)
        (fun _ t => Stopped F read entry t) s)
    (hs : Walking F read entry s) (hancestry : s.ancestry = ancestry)
    (hbefore : ∀ d ∈ dependencies, Before s (aliases ++ [d.1])) :
    wp (dependencies.forM fun d => visit F read d.2 (aliases ++ [d.1]))
      (fun _ t => Walking F read entry t ∧
        Extends s t (fun a => ∃ d ∈ dependencies, aliases ++ [d.1] <+: a) ∧
        ∀ d ∈ dependencies, ∀ rest target reached,
          AliasPath F read d.2 ancestry rest target reached →
          Covered F read t (aliases ++ [d.1] ++ rest) target reached)
      (fun _ t => Stopped F read entry t) s := by
  induction dependencies generalizing s with
  | nil =>
    refine ⟨hs, ⟨rfl, ⟨[], (List.append_nil _).symm, ?_⟩, List.Subset.refl _⟩, ?_⟩
    · intro m hm
      cases hm
    · intro d hd
      cases hd
  | cons d dependencies ih =>
    obtain ⟨hfirst, hsorted⟩ := List.pairwise_cons.1 hsorted
    show wp (visit F read d.2 (aliases ++ [d.1]) >>= fun _ =>
      dependencies.forM fun d => visit F read d.2 (aliases ++ [d.1])) _ _ s
    refine wp_seq (hvisit d List.mem_cons_self s hs hancestry (hbefore d List.mem_cons_self))
      (fun _ _ h => h) fun _ t ht => ?_
    have hnext : ∀ e ∈ dependencies, Before t (aliases ++ [e.1]) := by
      intro e he m hm
      obtain ⟨added, hadded, hbelow⟩ := ht.extends_below.mounts
      rw [hadded] at hm
      obtain hm | hm := List.mem_append.1 hm
      · exact hbefore e (List.mem_cons_of_mem _ he) m hm
      · obtain ⟨rest, hrest⟩ := hbelow m hm
        rw [← hrest, List.append_assoc]
        exact append_lt (List.Lex.rel (hfirst e he))
    have hkept : t.ancestry = ancestry := ht.extends_below.ancestry.trans hancestry
    refine wp_mono (ih hsorted (fun e he => hvisit e (List.mem_cons_of_mem _ he)) ht.walking
      hkept hnext) (fun _ u hu => ?_) fun _ _ h => h
    obtain ⟨hwalking, hextends, hcovers⟩ := hu
    refine ⟨hwalking, (ht.extends_below.trans hextends).mono ?_, ?_⟩
    · rintro a (ha | ⟨e, he, ha⟩)
      · exact ⟨d, List.mem_cons_self, ha⟩
      · exact ⟨e, List.mem_cons_of_mem _ he, ha⟩
    · intro e he rest target reached hpath
      obtain rfl | he := List.mem_cons.1 he
      · rw [← hancestry] at hpath
        exact (ht.covers rest target reached hpath).mono hextends.subset hextends.reads
      · exact hcovers e he rest target reached hpath

/-- A visit passes every alias path below its own, or the graph is one to refuse. -/
lemma wp_visit (n : Nat) (hn : aliases.length + n = 17) (hs : Walking F read entry s)
    (hpath : AliasPath F read entry [] aliases path s.ancestry) (hbefore : Before s aliases) :
    wp (visit F read path aliases) (fun _ t => Passes F read entry path aliases s t)
      (fun _ t => Stopped F read entry t) s := by
  induction n generalizing path aliases s with
  | zero =>
    rw [visit, dif_pos (by omega)]
    exact ⟨hs.once, .inl ⟨aliases, path, s.ancestry, hpath, .deep (by omega)⟩⟩
  | succ n ih =>
    have hfault : Fault F read aliases path s.ancestry → Refuses F read entry :=
      fun h => .inl ⟨aliases, path, s.ancestry, hpath, h⟩
    rw [visit, dif_neg (by omega)]
    refine wp_get_bind.2 (wp_guardWith_bind (fun hfull => ?_) fun hroom => ?_)
    · rw [not_or, not_not] at hfull
      exact ⟨hs.once, .inr (.inl (hs.tooMany hfull.1 hpath hbefore hfull.2))⟩
    refine wp_seq (wp_resolve read aliases) (fun e t ht => ?_) fun canonical t ht => ?_
    · obtain ⟨rfl, ht⟩ := ht
      exact ⟨hs.once, hfault ht⟩
    obtain ⟨rfl, hcanonical, hcycle⟩ := ht
    refine wp_seq (wp_package hs ⟨aliases, path, t.ancestry, hpath, hcanonical⟩)
      (fun e u hu => ?_) fun package u hu => ?_
    · refine ⟨hu.1, ?_⟩
      obtain ⟨e, he⟩ | hmany := hu.2
      · exact hfault (.unread hcanonical he)
      · exact .inr (.inr hmany)
    obtain ⟨hwalking, hread, hlisted, hmounts, hancestry, hreads⟩ := hu
    refine wp_guardWith_bind (fun hroot => ?_) fun hroot => ?_
    · exact ⟨hwalking.once, hfault (.relative hcanonical hread (Bool.not_eq_true _ ▸ hroot))⟩
    refine wp_update_bind.2 ?_
    have hreached : AliasPath F read entry [] aliases path u.ancestry := by rwa [hancestry]
    have hmounted : Walking F read entry (mounting aliases package.root u) := by
      unfold mounting
      split_ifs with hempty
      · exact hwalking
      · refine hwalking.mount hempty hpath hcanonical hread ?_ ?_ (by omega)
        · unfold Before
          rwa [hmounts]
        · rw [hmounts]
          exact hroom.resolve_left hempty
    have hadds := extends_mounting aliases package.root hmounts hancestry hreads
    have hlists : canonical ∈ (mounting aliases package.root u).reads := by
      rwa [mounting_reads]
    have hholds : aliases ≠ [] →
        ⟨aliases, package.root⟩ ∈ (mounting aliases package.root u).mounts :=
      mem_mounting package.root
    generalize mounting aliases package.root u = v at hmounted hadds hlists hholds
    refine wp_guardWith_bind (fun hwide => ?_) fun hwide => ?_
    · exact ⟨hmounted.once, hfault (.wide hcanonical hread (by omega))⟩
    have hentered : Walking F read entry { v with ancestry := v.ancestry ++ [canonical] } :=
      { hmounted with }
    have hafter : ∀ d ∈ package.dependencies,
        Before { v with ancestry := v.ancestry ++ [canonical] } (aliases ++ [d.1]) := by
      intro d _ m hm
      obtain ⟨added, hadded, heq⟩ := hadds.mounts
      have hlt : aliases < aliases ++ [d.1] := lt_append (List.cons_ne_nil _ _)
      have hm : m ∈ t.mounts ++ added := hadded ▸ hm
      obtain hm | hm := List.mem_append.1 hm
      · exact (hbefore m hm).trans hlt
      · rw [heq m hm]
        exact hlt
    refine wp_update_bind.2 (wp_seq (wp_dependencies package.sorted ?_ hentered rfl hafter)
      (fun _ _ h => h) fun _ w hw => ?_)
    · intro d hd x hx hxa hxb
      refine ih ?_ hx ?_ hxb
      · rw [List.length_append, List.length_singleton]
        omega
      · rw [hxa]
        show AliasPath F read entry [] _ d.2 (v.ancestry ++ [canonical])
        rw [hadds.ancestry]
        exact hpath.snoc hcanonical hread hd
    · obtain ⟨hwalked, hextends, hcovers⟩ := hw
      have hsubset := hextends.subset
      rw [show v.ancestry ++ [canonical] = t.ancestry ++ [canonical] by rw [hadds.ancestry]] at hcovers
      refine ⟨{ hwalked with }, ?_, ?_⟩
      · refine (hadds.trans hextends.leave).mono ?_
        rintro a (rfl | ⟨d, -, ha⟩)
        · exact List.prefix_refl a
        · exact (List.prefix_append aliases [d.1]).trans ha
      · intro rest target reached hrest
        cases hrest with
        | here =>
          rw [List.append_nil]
          refine ⟨not_fault (by omega) hcanonical hcycle hread hroot hwide, ?_, ?_⟩
          · intro c p hc hp hne
            rw [hcanonical] at hc
            cases hc
            rw [hread] at hp
            cases hp
            exact hsubset (hholds hne)
          · intro c hc
            rw [hcanonical] at hc
            cases hc
            exact hextends.reads hlists
        | there hc hp hmem hrest =>
          rw [hcanonical] at hc
          cases hc
          rw [hread] at hp
          cases hp
          have h := hcovers _ hmem _ _ _ hrest
          rw [List.append_assoc] at h
          exact h.mono (List.Subset.refl _) (List.Subset.refl _)

end Loop

/-! ## The result of an expansion -/

lemma exists_of_not_fault (h : ¬ Fault F read aliases path ancestry) :
    ∃ canonical package, F.canonicalize path = .ok canonical ∧ read canonical = .ok package := by
  cases hcanonical : F.canonicalize path with
  | error e => exact absurd (.missing hcanonical) h
  | ok canonical =>
    cases hread : read canonical with
    | error e => exact absurd (.unread hcanonical hread) h
    | ok package => exact ⟨canonical, package, rfl, hread⟩

section Result

variable (hcovers : ∀ rest target reached, AliasPath F read entry [] rest target reached →
    Covered F read s rest target reached)

include hcovers in
lemma mem_mounts (hs : Walking F read entry s) {mount : Mount P} :
    mount ∈ s.mounts ↔ Mounted F read entry mount := by
  refine ⟨hs.mounts mount, ?_⟩
  rintro ⟨hne, path, ancestry, canonical, package, hpath, hcanonical, hread, hroot⟩
  have h := (hcovers _ _ _ hpath).mounted canonical package hcanonical hread hne
  rwa [← hroot] at h

include hcovers in
/-- A graph whose alias paths are all passed is not one to refuse. -/
lemma not_refuses (hs : Walking F read entry s) : ¬ Refuses F read entry := by
  rintro (⟨aliases, path, ancestry, hpath, hfault⟩ | ⟨paths, hnodup, hlength, hpaths⟩ |
    ⟨manifests, hnodup, hlength, hreaches⟩)
  · exact (hcovers _ _ _ hpath).sound hfault
  · have hsubset : paths ⊆ s.mounts.map Mount.aliases := by
      intro aliases hmem
      obtain ⟨hne, path, ancestry, hpath⟩ := hpaths aliases hmem
      have hcovered := hcovers _ _ _ hpath
      obtain ⟨canonical, package, hcanonical, hread⟩ := exists_of_not_fault hcovered.sound
      exact List.mem_map_of_mem (hcovered.mounted canonical package hcanonical hread hne)
    have hle := (hnodup.subperm hsubset).length_le
    have hcount := hs.count
    rw [List.length_map] at hle
    omega
  · have hsubset : manifests ⊆ s.reads := by
      intro canonical hmem
      obtain ⟨aliases, path, ancestry, hpath, hcanonical⟩ := hreaches canonical hmem
      exact (hcovers _ _ _ hpath).listed canonical hcanonical
    have hle := (hnodup.subperm hsubset).length_le
    have hfew := hs.few
    rw [hs.reads, List.length_map] at hle
    omega

end Result

variable (F read)

/-- An expansion always ends, having read no manifest twice.  It fails exactly when the graph has
an alias path with a fault, 257 alias paths or 65 manifests.  Otherwise its mounts are the nonempty
alias paths with the roots they lead to, in strict lexicographic order, at most 256 of them and
each of 1 to 16 aliases, so that the check of the handoff is left with names and paths only. -/
theorem expand_mounts [DecidableEq P] (entry : P) :
    (expand F read entry).2.Nodup ∧
    ((∃ e, (expand F read entry).1 = .error e) ↔ Refuses F read entry) ∧
    ∀ mounts, (expand F read entry).1 = .ok mounts →
      (∀ mount, mount ∈ mounts ↔ Mounted F read entry mount) ∧
      (mounts.map Mount.aliases).Pairwise (· < ·) ∧
      (∀ mount ∈ mounts, 1 ≤ mount.aliases.length ∧ mount.aliases.length ≤ 16) ∧
      mounts.length ≤ 256 ∧
      ∀ (X : Texts) (string : P → Option String) (path : P) (document : Handoff),
        handoff string path mounts = .ok document →
        (document.validate X = .ok () ↔ absolute X document.entry = .ok () ∧
          ∀ mount ∈ document.mounts, (∀ name ∈ mount.aliases, X.identifier name = true) ∧
            absolute X mount.root = .ok ()) := by
  have hstart : Walking F read entry ⟨[], [], [], []⟩ :=
    ⟨List.forall_mem_nil _, rfl, List.nodup_nil, Nat.zero_le _, List.forall_mem_nil _,
      List.Pairwise.nil, Nat.zero_le _, List.forall_mem_nil _⟩
  have hvisit := wp_visit 17 rfl hstart .here (List.forall_mem_nil _)
  unfold wp at hvisit
  unfold expand
  rcases hrun : visit F read entry [] ⟨[], [], [], []⟩ with ⟨e | ⟨⟩, t⟩ <;> rw [hrun] at hvisit
  · obtain ⟨honce, hrefuses⟩ := hvisit
    exact ⟨honce, iff_of_true ⟨e, rfl⟩ hrefuses, fun _ h => by cases h⟩
  · obtain ⟨hwalking, -, hcovers⟩ := hvisit
    refine ⟨hwalking.once, iff_of_false (fun ⟨_, h⟩ => by cases h) (not_refuses hcovers hwalking), ?_⟩
    intro mounts hmounts
    cases hmounts
    have hlengths : ∀ mount ∈ t.mounts, 1 ≤ mount.aliases.length ∧ mount.aliases.length ≤ 16 :=
      fun m hm => ⟨List.length_pos_of_ne_nil (hwalking.mounts m hm).1, hwalking.depth m hm⟩
    refine ⟨fun _ => mem_mounts hcovers hwalking, hwalking.order, hlengths, hwalking.count, ?_⟩
    intro X string path document hdocument
    obtain ⟨hformat, hsame⟩ := handoff_ok hdocument
    refine validate_ok hformat ?_ ?_ ?_
    · rw [← List.length_map Mount.aliases, hsame, List.length_map]
      exact hwalking.count
    · intro m hm
      obtain ⟨m', hm', heq⟩ := List.mem_map.1 (hsame ▸ List.mem_map_of_mem (f := Mount.aliases) hm)
      rw [← heq]
      exact hlengths m' hm'
    · rw [hsame]
      exact hwalking.order.imp fun h => ne_of_lt h

end Project

end Rnx
