import CacheLayer.Proofs.Overflow.Operations

/-!
# What can be read under a key

`Overflow.Copy` says that a value with its stamps can be read under a key, in memory or from the file
of the key. Operations make no copies but the one that they store or promote.

* `Copy.of_sinks` : what sinks keeps its value and its stamps, or is gone.
* `Copy.of_insert`, `Copy.of_found`, `Copy.of_remove` : what can be read after an operation could be
  read before it, except for what it stored.
* `Copy.of_unforged` : so it is if others put no content of their own into the files.
-/

namespace CacheLayer

namespace Codec

variable {V : Type v}

/-- If anything can be read from the encoding of a value, it is the value. -/
def Truthful (codec : Codec V) : Prop :=
  ∀ v bytes v', codec.encode v = .ok bytes → codec.read bytes = .ok v' → v' = v

theorem Faithful.truthful {codec : Codec V} (h : codec.Faithful) : codec.Truthful :=
  fun v bytes _ hencode hread => Except.ok.inj (hread.symm.trans (h v bytes hencode))

/-- What can be read from a file of the later area could be read from it in the earlier one. -/
def Unforged (codec : Codec V) (area area' : FileArea) : Prop :=
  ∀ number name bytes v, area'.read number name = some bytes → codec.read bytes = .ok v →
    ∃ bytes', area.read number name = some bytes' ∧ codec.read bytes' = .ok v

end Codec

namespace Overflow

variable {K : Type u} {V : Type v} [DecidableEq K]

/-- This value with these stamps can be read under `k`. -/
inductive Copy (c : Overflow K V) (area : FileArea) (k : K) : Timestamps → V → Prop
  | inMemory {e : Entry V} (hget : c.entries.get? k = some e) :
    Copy c area k e.stamps e.value.value
  | onDisk {t : DiskTier K} {stamps : Timestamps} {bytes : List UInt8} {v : V}
    (hdisk : c.disk = some t) (hstamps : t.stamps? k = some stamps)
    (hcontent : t.content? area k = some bytes) (hread : c.settings.codec.read bytes = .ok v) :
    Copy c area k stamps v

/-- What can be read from the tier `t'` can be read from the tier `t`. -/
def TierFades (t : DiskTier K) (area : FileArea) (t' : DiskTier K) (area' : FileArea) (k : K) :
    Prop :=
  ∀ stamps bytes, t'.stamps? k = some stamps → t'.content? area' k = some bytes →
    t.stamps? k = some stamps ∧ t.content? area k = some bytes

theorem tierFades_without {t t' : DiskTier K} {area area' : FileArea} {k k' : K}
    (hstamps : t'.stamps? k' = (t.without k).stamps? k')
    (hcontent : t'.content? area' k' = if k' = k then none else t.content? area k') :
    TierFades t area t' area' k' := by
  intro stamps bytes hs hc
  rw [hstamps, DiskTier.stamps?_without] at hs
  rw [hcontent] at hc
  split at hs
  · cases hs
  · rename_i hk
    rw [if_neg hk] at hc
    exact ⟨hs, hc⟩

theorem Copy.mono {c c' : Overflow K V} {area area' : FileArea} {k : K} {stamps : Timestamps}
    {v : V} (hcopy : Copy c' area' k stamps v) (hcodec : c'.settings.codec = c.settings.codec)
    (hmemory : ∀ e, c'.entries.get? k = some e → c.entries.get? k = some e)
    (hdisk : ∀ t', c'.disk = some t' → ∃ t, c.disk = some t ∧ TierFades t area t' area' k) :
    Copy c area k stamps v := by
  cases hcopy with
  | inMemory hget => exact .inMemory (hmemory _ hget)
  | onDisk htier hstamps hcontent hread =>
    obtain ⟨t, ht, hfades⟩ := hdisk _ htier
    obtain ⟨hstamps, hcontent⟩ := hfades _ _ hstamps hcontent
    rw [hcodec] at hread
    exact .onDisk ht hstamps hcontent hread

theorem TierFades.refl (t : DiskTier K) (area : FileArea) (k : K) : TierFades t area t area k :=
  fun _ _ hstamps hcontent => ⟨hstamps, hcontent⟩

theorem get?_of_get?_erase {t : Table K (Entry V)} {k k' : K} {e : Entry V}
    (h : (t.erase k).get? k' = some e) : t.get? k' = some e := by
  rw [Table.get?_erase] at h
  split at h
  · cases h
  · exact h

/-! ## Sinking -/

theorem Copy.of_spilled {c : Overflow K V} {w : World} {k k' : K} {e : Entry V}
    {s : Step (Overflow K V) (Eviction K V) Unit} {stamps : Timestamps} {v : V}
    (hs : Spilled (c.dropMemory k) w k e s) (h : c.Sound) (hcodec : c.settings.codec.Truthful)
    (hget : c.entries.get? k = some e) (hcopy : Copy s.state s.world.area k' stamps v) :
    Copy c w.area k' stamps v := by
  have hmemory : ∀ e', (c.entries.erase k).get? k' = some e' → c.entries.get? k' = some e' :=
    fun _ he => get?_of_get?_erase he
  cases hs with
  | expired x hx => exact hcopy.mono rfl hmemory fun t ht => ⟨t, ht, .refl _ _ _⟩
  | dropped hlive hdisk => exact hcopy.mono rfl hmemory fun t ht => ⟨t, ht, .refl _ _ _⟩
  | unencodable hlive t hdisk fault hencode =>
    exact hcopy.mono rfl hmemory fun t ht => ⟨t, ht, .refl _ _ _⟩
  | refused hlive t hdisk bytes hencode haccepts =>
    refine hcopy.mono rfl hmemory fun t' ht' => ⟨t, hdisk, ?_⟩
    obtain rfl := Option.some.inj ht'
    refine tierFades_without rfl ?_
    have hwrite := (h.disk t hdisk).content?_write_failed k bytes e.stamps haccepts k'
    rwa [(h.disk t hdisk).write_tier_failed haccepts] at hwrite
  | written hlive t hdisk bytes hencode haccepts =>
    have hwrite := (h.disk t hdisk).content?_write k bytes e.stamps haccepts k'
    rw [(h.disk t hdisk).write_tier haccepts] at hwrite
    cases hcopy with
    | inMemory hget' => exact .inMemory (hmemory _ hget')
    | onDisk htier hstamps hcontent hread =>
      obtain rfl := Option.some.inj htier
      have hcontent := hwrite.symm.trans hcontent
      rw [DiskTier.stamps?_withWritten] at hstamps
      split at hstamps
      · cases hstamps
      · rename_i hkept
        rw [if_neg hkept] at hcontent
        split at hstamps
        · -- the entry itself: reading what was encoded gives its value back
          rename_i hk
          rw [if_pos hk] at hcontent
          obtain rfl := Option.some.inj hcontent
          obtain rfl := Option.some.inj hstamps
          rw [hk, hcodec _ _ _ hencode hread]
          exact .inMemory hget
        · rename_i hk
          rw [if_neg hk] at hcontent
          exact .onDisk hdisk hstamps hcontent hread

theorem Copy.of_sink {c : Overflow K V} {w : World} {k : K}
    {s : Step (Overflow K V) (Eviction K V) Unit} {stamps : Timestamps} {v : V}
    (hs : Sink c w s) (h : c.Sound) (hcodec : c.settings.codec.Truthful)
    (hcopy : Copy s.state s.world.area k stamps v) : Copy c w.area k stamps v := by
  cases hs with
  | @evict k₀ weight rest e hpop hget =>
    exact hcopy.of_spilled ((h.toTidy.dropMemory k₀).spilled w k₀ e) h hcodec hget
  | @expireMemory k₀ e x hget hx =>
    rw [Overflow.expireMemory, hget] at hcopy
    exact hcopy.mono rfl (fun _ he => get?_of_get?_erase he) fun t ht => ⟨t, ht, .refl _ _ _⟩
  | @expireDisk t k₀ x hdisk hx =>
    refine hcopy.mono rfl (fun _ he => he) fun t' ht' => ⟨t, hdisk, ?_⟩
    obtain rfl := Option.some.inj ht'
    rw [(h.disk t hdisk).remove_tier]
    exact tierFades_without rfl ((h.disk t hdisk).content?_remove w.area k₀ k)
  | @lose t k₀ taken hdisk hlive htake hlost =>
    refine hcopy.mono rfl (fun _ he => he) fun t' ht' => ⟨t, hdisk, ?_⟩
    obtain rfl := Option.some.inj ht'
    refine tierFades_without ?_ ((h.disk t hdisk).content?_take htake k)
    rw [DiskTier.take_tier htake]

theorem Copy.of_sinks {c : Overflow K V} {w : World} {k : K}
    {s : Step (Overflow K V) (Eviction K V) Unit} {stamps : Timestamps} {v : V}
    (hs : Sinks c w s) (h : c.Sound) (hcodec : c.settings.codec.Truthful)
    (hcopy : Copy s.state s.world.area k stamps v) : Copy c w.area k stamps v := by
  have hkept := hs.keepOfSound
    (P := fun c' w' => c'.settings.codec.Truthful ∧
      ∀ stamps v, Copy c' w'.area k stamps v → Copy c w.area k stamps v)
    (fun c' w' s' hs' h' hc' => by
      refine ⟨?_, fun stamps v hcopy => hc'.2 stamps v (hcopy.of_sink hs' h' hc'.1)⟩
      rw [(hs'.sameSetup h').settings]
      exact hc'.1) h ⟨hcodec, fun _ _ hcopy => hcopy⟩
  exact hkept.2 stamps v hcopy

/-! ## The operations -/

theorem not_copy_of_vacant {c : Overflow K V} {k : K} (hmemory : c.inMemory k = false)
    (hdisk : c.onDisk k = false) {area : FileArea} {stamps : Timestamps} {v : V} :
    ¬ Copy c area k stamps v := by
  intro hcopy
  cases hcopy with
  | inMemory hget =>
    rw [inMemory_of_get? hget] at hmemory
    cases hmemory
  | onDisk htier hstamps hcontent hread =>
    rw [onDisk_of_disk htier, DiskTier.contains_eq_isSome, hstamps] at hdisk
    cases hdisk

theorem Copy.of_atFront {c : Overflow K V} {area : FileArea} {k k' : K} {e : Entry V}
    {stamps : Timestamps} {v : V} (hdisk : c.onDisk k = false)
    (hcopy : Copy (c.atFront k e) area k' stamps v) :
    (k' = k ∧ stamps = e.stamps ∧ v = e.value.value) ∨ (k' ≠ k ∧ Copy c area k' stamps v) := by
  cases hcopy with
  | inMemory hget =>
    have hget' : (c.entries.insert k e).get? k' = some _ := hget
    rw [Table.get?_insert] at hget'
    split at hget'
    · rename_i hk
      obtain rfl := Option.some.inj hget'
      exact .inl ⟨hk, rfl, rfl⟩
    · rename_i hk
      exact .inr ⟨hk, .inMemory hget'⟩
  | onDisk htier hstamps hcontent hread =>
    refine .inr ⟨?_, .onDisk htier hstamps hcontent hread⟩
    rintro rfl
    have hdisk' : c.disk = some _ := htier
    rw [onDisk_of_disk hdisk', DiskTier.contains_eq_isSome, hstamps] at hdisk
    cases hdisk

theorem Copy.of_cleared {c : Overflow K V} {w : World} {k k' : K} {stamps : Timestamps} {v : V}
    (h : c.Sound)
    (hcopy : Copy ((c.dropMemory k).dropDisk k) (c.clearedWorld w k).area k' stamps v) :
    k' ≠ k ∧ Copy c w.area k' stamps v := by
  refine ⟨?_, hcopy.mono rfl (fun _ he => get?_of_get?_erase he) fun t' ht' => ?_⟩
  · rintro rfl
    exact not_copy_of_vacant (h.dropBoth k').notInMemory (h.dropBoth k').notOnDisk hcopy
  · obtain ⟨t, hdisk, rfl⟩ := Option.map_eq_some_iff.1 ht'
    have hdisk : c.disk = some t := hdisk
    refine ⟨t, hdisk, tierFades_without rfl ?_⟩
    rw [clearedWorld_of_disk hdisk]
    exact (h.disk t hdisk).content?_remove w.area k k'

theorem Copy.of_lifted {c : Overflow K V} {area : FileArea} {t : DiskTier K} {k k' : K}
    {stamps : Timestamps} {v : V} (h : c.Sound) (hdisk : c.disk = some t)
    (hcopy : Copy (c.lifted t k) (t.deleteSlot area k).2 k' stamps v) : Copy c area k' stamps v := by
  refine hcopy.mono rfl (fun _ he => he) fun t' ht' => ⟨t, hdisk, ?_⟩
  obtain rfl := Option.some.inj ht'
  have hdelete := DiskTier.content?_deleteSlot (h.disk t hdisk).distinct area k k'
  rw [DiskTier.deleteSlot_tier] at hdelete
  exact tierFades_without rfl hdelete

theorem Copy.of_insert {c : Overflow K V} {w : World} {k k' : K} {value : Shared V}
    {stamps : Timestamps} {v : V} (h : c.Sound) (hcodec : c.settings.codec.Truthful)
    (hcopy : Copy (c.insert w k value).state (c.insert w k value).world.area k' stamps v) :
    (k' = k ∧ stamps = .create w.now c.settings.timeToLive c.settings.timeToIdle ∧
      v = value.value) ∨ (k' ≠ k ∧ Copy c w.area k' stamps v) := by
  have hfront := (h.dropBoth k).atFront (c.freshEntry w value)
  rw [h.insert_eq] at hcopy
  have hcounted := hcopy.mono (c := (((c.dropMemory k).dropDisk k).takeIn (c.clearedWorld w k) k
    (c.freshEntry w value)).state) rfl (fun _ he => he) fun t ht => ⟨t, ht, .refl _ _ _⟩
  have hstored := hcounted.of_sinks (takeIn_sinks hfront (c.clearedWorld w k)) hfront hcodec
  rcases hstored.of_atFront (h.dropBoth k).notOnDisk with ⟨hk, hstamps, hv⟩ | ⟨-, hother⟩
  · exact .inl ⟨hk, hstamps, hv⟩
  · exact .inr (hother.of_cleared h)

theorem Copy.of_found {c : Overflow K V} {w : World} {k k' : K}
    {s : Step (Overflow K V) (Eviction K V) (Option (Shared V))} {stamps : Timestamps} {v : V}
    (hs : Found c w k s) (h : c.Sound) (hcodec : c.settings.codec.Truthful)
    (hcopy : Copy s.state s.world.area k' stamps v) :
    ∃ before, Copy c w.area k' before v ∧
      stamps = if k' = k ∧ s.answer.isSome then c.touched w before else before := by
  cases hs with
  | absent hmemory hdisk => exact ⟨stamps, hcopy, by simp [Step.pure]⟩
  | gone hs => exact ⟨stamps, hcopy.of_sink hs.sink h hcodec, by simp [Step.mapAnswer]⟩
  | @hit e hget hlive =>
    have hdisk : c.onDisk k = false := h.not_onDisk hget
    have hfront := Copy.of_atFront (e := { e with stamps := c.touched w e.stamps }) hdisk
      (hcopy.mono rfl (fun _ he => he) fun t ht => ⟨t, ht, .refl _ _ _⟩)
    rcases hfront with ⟨rfl, rfl, rfl⟩ | ⟨hk, hother⟩
    · exact ⟨e.stamps, .inMemory hget, by simp [Step.pure]⟩
    · exact ⟨stamps, hother, by rw [if_neg fun hand => hk hand.1]⟩
  | @promoted t bytes found value hmemory hdisk hstamps hlive hcontent hread =>
    have hvacant := lifted_vacant h hmemory hdisk
    have hstored := Copy.of_sinks (takeIn_sinks (hvacant.atFront _) _) (hvacant.atFront _) hcodec
      hcopy
    rcases hstored.of_atFront hvacant.notOnDisk with ⟨rfl, rfl, rfl⟩ | ⟨hk, hother⟩
    · exact ⟨found, .onDisk hdisk hstamps hcontent hread, by simp [Step.mapAnswer]⟩
    · exact ⟨stamps, hother.of_lifted h hdisk, by rw [if_neg fun hand => hk hand.1]⟩

theorem Found.copy {c : Overflow K V} {w : World} {k : K}
    {s : Step (Overflow K V) (Eviction K V) (Option (Shared V))} {value : Shared V}
    (hs : Found c w k s) (hanswer : s.answer = some value) :
    ∃ stamps, Copy c w.area k stamps value.value ∧
      stamps.expiration w.now c.settings.timeToIdle = none := by
  cases hs with
  | absent hmemory hdisk => cases hanswer
  | gone hs => cases hanswer
  | @hit e hget hlive =>
    obtain rfl := Option.some.inj hanswer
    exact ⟨e.stamps, .inMemory hget, hlive⟩
  | @promoted t bytes stamps v hmemory hdisk hstamps hlive hcontent hread =>
    obtain rfl := Option.some.inj hanswer
    exact ⟨stamps, .onDisk hdisk hstamps hcontent hread, hlive⟩

theorem Copy.of_remove {c : Overflow K V} {w : World} {k k' : K} {stamps : Timestamps} {v : V}
    (h : c.Sound) (hcopy : Copy (c.remove w k).state (c.remove w k).world.area k' stamps v) :
    k' ≠ k ∧ Copy c w.area k' stamps v := by
  rw [h.remove_state, h.remove_world] at hcopy
  have hcleared : Copy ((c.dropMemory k).dropDisk k) (c.clearedWorld w k).area k' stamps v :=
    hcopy.mono rfl (fun _ he => he) fun t ht => ⟨t, ht, .refl _ _ _⟩
  exact hcleared.of_cleared h

theorem not_copy_close (c : Overflow K V) (w : World) {area : FileArea} {k : K}
    {stamps : Timestamps} {v : V} : ¬ Copy (c.close w).state area k stamps v := by
  rw [close_state]
  refine not_copy_of_vacant rfl ?_
  unfold onDisk
  cases c.disk <;> rfl

theorem Copy.of_unforged {c : Overflow K V} {area area' : FileArea} {k : K} {stamps : Timestamps}
    {v : V} (harea : c.settings.codec.Unforged area area') (hcopy : Copy c area' k stamps v) :
    Copy c area k stamps v := by
  cases hcopy with
  | inMemory hget => exact .inMemory hget
  | onDisk hdisk hstamps hcontent hread =>
    unfold DiskTier.content? at hcontent
    obtain ⟨slot, hslot, hcontent⟩ := Option.bind_eq_some_iff.1 hcontent
    obtain ⟨place, hplace, hcontent⟩ := Option.bind_eq_some_iff.1 hcontent
    obtain ⟨bytes', hbefore, hread'⟩ := harea _ _ _ _ hcontent hread
    refine .onDisk hdisk hstamps ?_ hread'
    rw [DiskTier.content?, hslot, Option.bind_some, hplace, Option.bind_some, hbefore]

theorem Copy.of_loses {c : Overflow K V} {area : FileArea} {change : FileArea → FileArea} {k : K}
    {stamps : Timestamps} {v : V} (hchange : FileArea.Loses change)
    (hcopy : Copy c (change area) k stamps v) : Copy c area k stamps v :=
  hcopy.of_unforged fun number name bytes _ hfile hread =>
    ⟨bytes, hchange area number name bytes hfile, hread⟩

end Overflow

end CacheLayer
