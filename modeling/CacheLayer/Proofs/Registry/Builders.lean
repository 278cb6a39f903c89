import CacheLayer.Proofs.Registry.Contract

/-!
# Builders that are kept

A registry hands out builders, which fall back to the directory that it has at that moment. Whoever keeps
one may change its options, and may build with it later, when the registry has another directory or is
gone.

* `Origin` : what a cache is built from, and with it where its private directory lies.
* `Builder.leaves_build`, `Builder.houses_build` : a failure makes no private directory, and success makes
  one exactly for a cache that swaps to disk.
* `Draft` : a builder with the directory that it falls back to; `Making` : how somebody builds with it.
* `Factory.From` : making caches of one origin and no other private directory; `Making.from_draft`,
  `Registry.from_builder`.
-/

namespace CacheLayer

variable {K : Type u} {V : Type v} {T : Type w}

/-! ## Origins -/

/-- What a cache is built from: its configuration, and the directory to fall back to. -/
structure Origin where
  config : CacheConfig
  fallback : String

namespace Origin

/-- Whether entries that do not fit into memory go to disk. -/
def Swaps (o : Origin) : Prop :=
  o.config.kind = .diskOverflow ∧ o.config.persistence = .swapOnOverflow

instance (o : Origin) : Decidable o.Swaps := inferInstanceAs (Decidable (_ ∧ _))

/-- Where the private directory is made: under the configured directory, if there is one. -/
def parent (o : Origin) : Path := Path.landing (Path.ofText (o.config.diskDirectory.getD o.fallback))

end Origin

/-! ## Private directories -/

structure FileArea.Leaves (a a' : FileArea) : Prop where
  nextTier : a.nextTier ≤ a'.nextTier
  tiers : ∀ number, a'.tiers.get? number = a.tiers.get? number

namespace FileArea.Leaves

variable {a a' : FileArea}

theorem refl (a : FileArea) : a.Leaves a := ⟨Nat.le_refl _, fun _ => rfl⟩

theorem grows (h : a.Leaves a') : a.Grows a' := ⟨h.nextTier, fun number _ => h.tiers number⟩

end FileArea.Leaves

/-- A cache of that origin was made, which uses the private directory of the number given. That one is in
its place, and the others stay as they are. -/
structure Origin.Houses (o : Origin) (a : FileArea) (number? : Option Nat) (a' : FileArea) : Prop where
  swaps : number?.isSome = true ↔ o.Swaps
  placed : ∀ number, number? = some number →
    (a'.tiers.get? number).map TierDirectory.parent = some o.parent
  others : ∀ number, number? ≠ some number → a'.tiers.get? number = a.tiers.get? number

theorem Origin.Houses.within {o : Origin} {a a₁ a₂ a' : FileArea} {number? : Option Nat}
    (h : o.Houses a₁ number? a₂) (hbefore : a.Leaves a₁) (hafter : a₂.Leaves a') :
    o.Houses a number? a' where
  swaps := h.swaps
  placed number hnumber := by
    rw [hafter.tiers]
    exact h.placed number hnumber
  others number hnumber :=
    (hafter.tiers number).trans ((h.others number hnumber).trans (hbefore.tiers number))

namespace Builder

variable {b : Builder} {st : Storage K V} {w w' : World}

theorem buildKind_memory {kind : CacheKind} (hkind : kind ≠ .diskOverflow)
    {made : Except CacheError (Backend K V)} (h : b.buildKind st w kind = (made, w')) :
    w' = w ∧ ∀ c, made = .ok c → c.number? = none := by
  cases kind with
  | diskOverflow => exact absurd rfl hkind
  | volatile =>
    obtain ⟨rfl, rfl⟩ := Prod.mk.inj h
    refine ⟨rfl, fun c hc => ?_⟩
    obtain ⟨v, -, rfl⟩ := exists_of_map_eq_ok hc
    rfl
  | softReference =>
    obtain ⟨rfl, rfl⟩ := Prod.mk.inj h
    refine ⟨rfl, fun c hc => ?_⟩
    obtain ⟨v, -, rfl⟩ := exists_of_map_eq_ok hc
    rfl
  | noOp =>
    obtain ⟨rfl, rfl⟩ := Prod.mk.inj h
    refine ⟨rfl, fun c hc => ?_⟩
    obtain rfl := Except.ok.inj hc
    rfl

theorem leaves_buildOverflow {e : CacheError} (h : b.buildOverflow st w = (.error e, w')) :
    w.area.Leaves w'.area := by
  unfold buildOverflow at h
  split at h
  · obtain ⟨-, rfl⟩ := Prod.mk.inj h
    exact .refl _
  · dsimp only at h
    split at h
    · cases h
    · have hopened := DiskTier.opened (K := K) w.area (Path.ofText b.directory) b.name
        b.config.diskBound
      split at h
      · rename_i area hopen
        rw [hopen] at hopened
        obtain ⟨-, rfl⟩ := Prod.mk.inj h
        cases hopened with
        | failed directories => exact ⟨Nat.le_refl _, fun _ => rfl⟩
      · cases h

/-- A failure may leave directories behind, but no private one. -/
theorem leaves_build {e : CacheError} (h : b.build st w = (.error e, w')) : w.area.Leaves w'.area := by
  unfold build at h
  by_cases hkind : b.config.kind = .diskOverflow
  · rw [hkind] at h
    obtain ⟨hmade, rfl⟩ := Prod.mk.inj h
    exact leaves_buildOverflow (Prod.ext (eq_error_of_map hmade) rfl)
  · rw [(buildKind_memory hkind h).1]
    exact .refl _

theorem directory_eq {fallback : String}
    (hfalls : b.fallbackDirectory.getD defaultDiskDirectory = fallback) :
    b.directory = b.config.diskDirectory.getD fallback := by
  rw [directory, ← hfalls]
  cases b.config.diskDirectory <;> rfl

theorem houses_buildOverflow {c : Overflow K V} {fallback : String}
    (h : b.buildOverflow st w = (.ok c, w')) (hkind : b.config.kind = .diskOverflow)
    (hfalls : b.fallbackDirectory.getD defaultDiskDirectory = fallback) :
    Origin.Houses ⟨b.config, fallback⟩ w.area c.number? w'.area := by
  rcases Builder.buildOverflow_cases h with
    ⟨hpersistence, rfl, rfl⟩ | ⟨hpersistence, t, area, hopen, rfl, rfl⟩
  · refine ⟨⟨nofun, fun hswaps => ?_⟩, nofun, fun _ _ => rfl⟩
    cases hpersistence.symm.trans hswaps.2
  · have hopened := DiskTier.opened (K := K) w.area (Path.ofText b.directory) b.name
      b.config.diskBound
    rw [hopen] at hopened
    cases hopened with
    | @made directories path hpath =>
      refine ⟨⟨fun _ => ⟨hkind, hpersistence⟩, fun _ => rfl⟩, fun number hnumber => ?_,
        fun number hnumber => ?_⟩
      · obtain rfl := Option.some.inj hnumber
        show ((w.area.tiers.insert w.area.nextTier _).get? w.area.nextTier).map _ = _
        rw [Table.get?_insert, if_pos rfl, Option.map_some, FileArea.reach_eq_landing hpath,
          directory_eq hfalls]
        rfl
      · show (w.area.tiers.insert w.area.nextTier _).get? number = _
        rw [Table.get?_insert, if_neg fun hsame => hnumber (congrArg some hsame.symm)]

theorem houses_build {c : Backend K V} {fallback : String} (h : b.build st w = (.ok c, w'))
    (hfalls : b.fallbackDirectory.getD defaultDiskDirectory = fallback) :
    Origin.Houses ⟨b.config, fallback⟩ w.area c.number? w'.area := by
  unfold build at h
  by_cases hkind : b.config.kind = .diskOverflow
  · rw [hkind] at h
    obtain ⟨hmade, rfl⟩ := Prod.mk.inj h
    obtain ⟨c', hbuilt, rfl⟩ := exists_of_map_eq_ok hmade
    exact houses_buildOverflow (Prod.ext hbuilt rfl) hkind hfalls
  · obtain ⟨rfl, hnone⟩ := buildKind_memory hkind h
    rw [hnone c rfl]
    exact ⟨⟨nofun, fun hswaps => absurd hswaps.1 hkind⟩, nofun, fun _ _ => rfl⟩

end Builder

/-! ## Factories -/

namespace Factory

/-- The factory makes caches of that origin, and no other private directory. -/
structure From (f : Factory K V) (o : Origin) : Prop where
  failing : ∀ w e w', f.run w = (.error e, w') → w.area.Leaves w'.area
  making : ∀ w c w', f.run w = (.ok c, w') → o.Houses w.area c.tier? w'.area

/-- The factory builds with `b`, and in whatever else it does leaves the private directories as they
are. -/
structure BuildsWith (f : Factory K V) (b : Builder) : Prop where
  failing : ∀ w e w', f.run w = (.error e, w') → w.area.Leaves w'.area
  making : ∀ w c w', f.run w = (.ok c, w') → ∃ (st : Storage K V) (w₁ w₂ : World),
    w.area.Leaves w₁.area ∧ b.build st w₁ = (.ok c.store.backend, w₂) ∧ w₂.area.Leaves w'.area

theorem buildsWith_built (b : Builder) (st : Storage K V) (layers : List (Layer K V)) :
    (built b st layers).BuildsWith b where
  failing w e w' hrun := by
    obtain ⟨hmade, rfl⟩ := Prod.mk.inj hrun
    exact Builder.leaves_build (Prod.ext (eq_error_of_map hmade) rfl)
  making w c w' hrun := by
    obtain ⟨hmade, rfl⟩ := Prod.mk.inj hrun
    obtain ⟨backend, hbuilt, rfl⟩ := exists_of_map_eq_ok hmade
    exact ⟨st, w, _, .refl _, Prod.ext hbuilt rfl, .refl _⟩

theorem BuildsWith.from {f : Factory K V} {b : Builder} {fallback : String} (h : f.BuildsWith b)
    (hfalls : b.fallbackDirectory.getD defaultDiskDirectory = fallback) :
    f.From ⟨b.config, fallback⟩ where
  failing := h.failing
  making w c w' hrun := by
    obtain ⟨st, w₁, w₂, hbefore, hbuilt, hafter⟩ := h.making w c w' hrun
    exact (Builder.houses_build hbuilt hfalls).within hbefore hafter

end Factory

theorem Registry.from_builder (r : Registry T) (st : Storage K V) (name : String) (config : CacheConfig)
    (layers : List (Layer K V)) :
    (Factory.built (r.builder name config) st layers).From ⟨config, r.defaultDirectory⟩ :=
  (Factory.buildsWith_built (r.builder name config) st layers).from rfl

/-! ## Kept builders -/

/-- A builder that somebody keeps, with the directory that it falls back to. -/
structure Draft where
  builder : Builder
  fallback : String
  falls : builder.fallbackDirectory.getD defaultDiskDirectory = fallback

namespace Draft

def origin (d : Draft) : Origin := ⟨d.builder.config, d.fallback⟩

def ofRegistry (r : Registry T) (name : String) (config : CacheConfig) : Draft :=
  ⟨r.builder name config, r.defaultDirectory, rfl⟩

def own (name : String) (config : CacheConfig) : Draft :=
  ⟨.ofConfig name config, defaultDiskDirectory, rfl⟩

/-- A builder with other options; the directory to fall back to is not one of them. -/
def revise (d : Draft) (options : Builder → Builder) : Draft :=
  ⟨{ options d.builder with fallbackDirectory := d.builder.fallbackDirectory }, d.fallback, d.falls⟩

end Draft

/-- How somebody makes a cache with a builder, whichever it is; this may also fail. -/
structure Making (K : Type u) (V : Type v) where
  factory : Builder → Factory K V
  builds : ∀ b, (factory b).BuildsWith b

theorem Making.from_draft (m : Making K V) (d : Draft) : (m.factory d.builder).From d.origin :=
  (m.builds d.builder).from d.falls

/-! ## The smallest cache over disk -/

def pairRegistry : RegistryConfig := { defaultDiskDirectory := some "d" }

/-- One entry in memory over one on disk, wherever the registry likes. -/
def pairConfig : CacheConfig :=
  { memoryBound := .entries 1, diskBound := .entries 1, persistence := .swapOnOverflow }

theorem pair_made :
    (Factory.built ((Registry.opened (some pairRegistry) : Registry T).builder "pair" pairConfig)
      byteStorage []).run bareWorld = (.ok (.plain (.overflow (pairCache none none))), pairWorld) := by
  generalize hb : (Registry.opened (some pairRegistry) : Registry T).builder "pair" pairConfig = b
  have hoverflow : b.buildOverflow byteStorage bareWorld = (.ok (pairCache none none), pairWorld) := by
    subst hb
    exact Builder.buildOverflow_of_opens rfl rfl pair_opens
  have hkind : b.config.kind = .diskOverflow := by
    subst hb
    rfl
  have hbuild : b.build byteStorage bareWorld =
      (.ok (.overflow (pairCache none none)), pairWorld) := by
    rw [Builder.build, hkind, Builder.buildKind, hoverflow]
    rfl
  show ((b.build byteStorage bareWorld).1.map _, (b.build byteStorage bareWorld).2) = _
  rw [hbuild]
  rfl

end CacheLayer
