import CacheLayer.Proofs.Expelling
import CacheLayer.Proofs.Overflow.Sound

/-!
# Entries that leave unasked

Whatever else an operation of a two-tier cache does, the entries that it does not name only sink: an
entry is pushed from memory to disk, off the disk or out of the cache, it expires, or its file turns
out to be lost. `Overflow.Sink` is one such step and `Overflow.Sinks` any number of them.

* `spilled` : the five things that can become of an entry that memory pushes out.
* `Sink.sound`, `Sink.memoryFits`, `Sink.diskFits` : what a step keeps.
* `Shed` : the steps that tell of what leaves, which are all but the loss of a file.
* `takeIn_sheds`, `purgeExpired_sheds` : the loops of the operations are such steps.
-/

namespace CacheLayer.Overflow

variable {K : Type u} {V : Type v} [DecidableEq K]

/-! ## An entry pushed out of memory -/

/-- What becomes of an entry that the memory tier has pushed out. -/
inductive Spilled (c : Overflow K V) (w : World) (k : K) (e : Entry V) :
    Step (Overflow K V) (Eviction K V) Unit → Prop
  | expired (x : Expiration) (hx : c.expiration w e = some x) :
    Spilled c w k e ⟨(), { c.forget k with metrics := c.metrics.expired x }, w,
      [⟨k, some e.value, .expired⟩]⟩
  /-- There is no disk tier. -/
  | dropped (hlive : c.expiration w e = none) (hdisk : c.disk = none) :
    Spilled c w k e ⟨(), { c.forget k with
        metrics := { c.metrics with evictedByCapacity := c.metrics.evictedByCapacity + 1 } }, w,
      [⟨k, some e.value, .overflow⟩]⟩
  | unencodable (hlive : c.expiration w e = none) (t : DiskTier K) (hdisk : c.disk = some t)
    (fault : Codec.Fault) (hencode : c.settings.codec.encode e.value.value = .error fault) :
    Spilled c w k e ⟨(), { c.forget k with
        metrics := { c.metrics with diskWriteFailures := c.metrics.diskWriteFailures + 1 } }, w,
      [⟨k, some e.value, .overflow⟩]⟩
  /-- The file cannot be written. -/
  | refused (hlive : c.expiration w e = none) (t : DiskTier K) (hdisk : c.disk = some t)
    (bytes : List UInt8) (hencode : c.settings.codec.encode e.value.value = .ok bytes)
    (haccepts : t.accepts w.area = false) :
    Spilled c w k e ⟨(), { c.forget k with
        disk := some { t.without k with nextFileId := t.nextFileId + 1 }
        metrics := { c.metrics with diskWriteFailures := c.metrics.diskWriteFailures + 1 } },
      { w with area := (t.write w.area k bytes e.stamps).area },
      [⟨k, some e.value, .overflow⟩]⟩
  | written (hlive : c.expiration w e = none) (t : DiskTier K) (hdisk : c.disk = some t)
    (bytes : List UInt8) (hencode : c.settings.codec.encode e.value.value = .ok bytes)
    (haccepts : t.accepts w.area = true) :
    Spilled c w k e ⟨(), { c with
        disk := some (t.withWritten k bytes.length e.stamps)
        keyIndex := (t.listed k bytes.length).2.foldl Table.erase c.keyIndex
        metrics := { c.metrics with
          spilledToDisk := c.metrics.spilledToDisk + 1
          evictedByCapacity :=
            c.metrics.evictedByCapacity + (t.listed k bytes.length).2.length } },
      { w with area := (t.write w.area k bytes e.stamps).area },
      (t.listed k bytes.length).2.map fun victim => ⟨victim, none, .capacity⟩⟩

theorem spilled {c : Overflow K V} (h : ∀ t, c.disk = some t → t.Sound) (w : World) (k : K)
    (e : Entry V) : Spilled c w k e (c.spill w k e) := by
  obtain ⟨settings, entries, order, disk, keyIndex, metrics⟩ := c
  unfold spill
  split
  · rename_i x hx
    exact .expired x hx
  · rename_i hx
    cases disk with
    | none => exact .dropped hx rfl
    | some t =>
      dsimp only
      split
      · rename_i fault hencode
        exact .unencodable hx t rfl fault hencode
      · rename_i bytes hencode
        rw [Timestamps.snapshot_eq]
        rcases (h t rfl).write_cases w.area k bytes e.stamps with
          ⟨haccepts, hwrite⟩ | ⟨_, _, haccepts, -, -, hwrite⟩
        · have hspilled := Spilled.refused (k := k) hx t rfl bytes hencode haccepts
          rw [hwrite] at hspilled ⊢
          exact hspilled
        · have hspilled := Spilled.written (k := k) hx t rfl bytes hencode haccepts
          rw [hwrite] at hspilled ⊢
          exact hspilled

theorem Tidy.spilled {c : Overflow K V} (h : c.Tidy) (w : World) (k : K) (e : Entry V) :
    Spilled c w k e (c.spill w k e) := Overflow.spilled h.disk w k e

theorem spill_order (c : Overflow K V) (w : World) (k : K) (e : Entry V) (order : Recency K) :
    { c with order }.spill w k e = (c.spill w k e).mapState fun c => { c with order } := by
  unfold spill expiration
  cases e.stamps.expiration w.now c.settings.timeToIdle with
  | some x => rfl
  | none =>
    cases c.disk with
    | none => rfl
    | some t =>
      cases c.settings.codec.encode e.value.value with
      | error fault => rfl
      | ok bytes =>
        cases hwrite : (t.write w.area k bytes e.stamps.snapshot).answer <;>
          simp only [hwrite] <;> rfl

theorem spill_state_order (c : Overflow K V) (w : World) (k : K) (e : Entry V) :
    (c.spill w k e).state.order = c.order :=
  congrArg (fun s => s.state.order) (spill_order c w k e c.order)

/-! ## One step -/

/-- One entry moves down a tier, or leaves the cache without being asked to. -/
inductive Sink (c : Overflow K V) (w : World) :
    Step (Overflow K V) (Eviction K V) Unit → Prop
  /-- The oldest entry of the memory tier is pushed out. -/
  | evict {k : K} {weight : Nat} {rest : Recency K} {e : Entry V}
    (hpop : c.order.popBack = some ((k, weight), rest)) (hget : c.entries.get? k = some e) :
    Sink c w ((c.dropMemory k).spill w k e)
  | expireMemory {k : K} {e : Entry V} {x : Expiration} (hget : c.entries.get? k = some e)
    (hx : c.expiration w e = some x) : Sink c w (c.expireMemory w k)
  | expireDisk {t : DiskTier K} {k : K} {x : Expiration} (hdisk : c.disk = some t)
    (hx : t.expiration w.now c.settings.timeToIdle k = some x) : Sink c w (c.expireDisk w t k x)
  /-- The file of an entry cannot be read, or what lies in it is no value. -/
  | lose {t : DiskTier K} {k : K} {taken : DiskTier.Change K (Option (List UInt8 × Timestamps))}
    (hdisk : c.disk = some t) (hlive : t.expiration w.now c.settings.timeToIdle k = none)
    (htake : t.take w.area k = some taken)
    (hlost : ∀ bytes stamps v, taken.answer = some (bytes, stamps) →
      c.settings.codec.read bytes ≠ .ok v) :
    Sink c w ⟨(), { c.forget k with disk := some taken.tier }, { w with area := taken.area }, []⟩

theorem not_inMemory_of_onDisk {c : Overflow K V} (h : c.Tidy) {k : K} (hk : c.onDisk k = true) :
    c.inMemory k = false := by
  by_contra hm
  rw [Bool.not_eq_false] at hm
  rw [h.apart k hm] at hk
  cases hk

theorem dropDisk_eq {c : Overflow K V} {t : DiskTier K} (h : c.disk = some t) (k : K) :
    c.dropDisk k = { c with disk := some (t.without k) } := by
  rw [dropDisk, h]
  rfl

theorem contains_of_expiration {t : DiskTier K} {now : Nat} {timeToIdle : Option Duration} {k : K}
    {x : Expiration} (h : t.expiration now timeToIdle k = some x) : t.contains k = true := by
  obtain ⟨slot, hslot, -⟩ := Option.bind_eq_some_iff.1 h
  exact Table.contains_of_get? hslot

/-- The disk tier may change as long as it holds the same keys. -/
theorem Vacant.withTier {c : Overflow K V} {k : K} (h : c.Vacant k) {t t' : DiskTier K}
    (hdisk : c.disk = some t) (ht' : t'.Sound) (hsame : ∀ k', t'.contains k' = t.contains k') :
    Vacant { c with disk := some t' } k := by
  have hon (k' : K) : onDisk { c with disk := some t' } k' = c.onDisk k' := by
    rw [onDisk_of_disk hdisk]
    exact hsame k'
  refine ⟨⟨h.order, h.weights, ?_, fun k' hk' => ?_⟩, h.notInMemory, ?_, fun k' hk' => ?_⟩
  · rintro t'' ht''
    obtain rfl := Option.some.inj ht''
    exact ht'
  · rw [hon]
    exact h.apart k' hk'
  · rw [hon]
    exact h.notOnDisk
  · rw [hon]
    exact h.index k' hk'

theorem Vacant.spilled_sound {c : Overflow K V} {w : World} {k : K} {e : Entry V}
    {s : Step (Overflow K V) (Eviction K V) Unit} (h : c.Vacant k)
    (hindex : c.keyIndex.contains k = true) (hs : Spilled c w k e s) : s.state.Sound := by
  cases hs with
  | expired x hx => exact h.forget.withMetrics _
  | dropped hlive hdisk => exact h.forget.withMetrics _
  | unencodable hlive t hdisk fault hencode => exact h.forget.withMetrics _
  | refused hlive t hdisk bytes hencode haccepts =>
    have hnot : t.contains k = false := by rw [← onDisk_of_disk hdisk]; exact h.notOnDisk
    have hwithout := (h.disk t hdisk).without_eq_self hnot
    have htier : DiskTier.Sound { t.without k with nextFileId := t.nextFileId + 1 } := by
      rw [hwithout]
      exact (h.disk t hdisk).bump
    have hsame (k' : K) : DiskTier.contains { t.without k with nextFileId := t.nextFileId + 1 } k' =
        t.contains k' := by rw [hwithout]; rfl
    exact (h.withTier hdisk htier hsame).forget.withMetrics _
  | written hlive t hdisk bytes hencode haccepts =>
    exact (h.written hdisk hindex bytes.length e.stamps).withMetrics _

theorem Sink.sound {c : Overflow K V} {w : World} {s : Step (Overflow K V) (Eviction K V) Unit}
    (hs : Sink c w s) (h : c.Sound) : s.state.Sound := by
  cases hs with
  | @evict k weight rest e hpop hget =>
    have hvacant := h.dropMemory (h.not_onDisk hget)
    have hindex : c.keyIndex.contains k = true := by
      rw [h.index, inMemory_of_get? hget, Bool.true_or]
    exact hvacant.spilled_sound hindex (hvacant.toTidy.spilled w k e)
  | @expireMemory k e x hget hx =>
    rw [Overflow.expireMemory, hget]
    exact (h.dropMemory (h.not_onDisk hget)).forget.withMetrics _
  | @expireDisk t k x hdisk hx =>
    have hon : c.onDisk k = true := by
      rw [onDisk_of_disk hdisk]
      exact contains_of_expiration hx
    have hvacant := h.dropDisk (not_inMemory_of_onDisk h.toTidy hon)
    rw [dropDisk_eq hdisk] at hvacant
    simp only [Overflow.expireDisk, (h.disk t hdisk).remove_tier]
    exact hvacant.forget.withMetrics _
  | @lose t k taken hdisk hlive htake hlost =>
    have hon := (onDisk_of_disk hdisk k).trans (DiskTier.contains_of_take htake)
    have hvacant := h.dropDisk (not_inMemory_of_onDisk h.toTidy hon)
    rw [dropDisk_eq hdisk, ← DiskTier.take_tier htake] at hvacant
    exact hvacant.forget

/-! ## Bounds -/

def MemoryFits (c : Overflow K V) : Prop := c.settings.memoryBound.exceededBy c.order = false

def DiskFits (c : Overflow K V) : Prop :=
  ∀ t, c.disk = some t → t.bound.exceededBy t.order = false

omit [DecidableEq K] in
theorem diskFits_of_some {c : Overflow K V} {t : DiskTier K} (hdisk : c.disk = some t)
    (h : t.bound.exceededBy t.order = false) : c.DiskFits := by
  rintro t' ht'
  rw [hdisk] at ht'
  rw [← Option.some.inj ht']
  exact h

theorem diskFits_without {c c' : Overflow K V} {t : DiskTier K} (h : c.DiskFits)
    (hdisk : c.disk = some t) (k : K) (hdisk' : c'.disk = some (t.without k)) : c'.DiskFits :=
  diskFits_of_some hdisk' (Recency.not_exceededBy_remove (h t hdisk) k)

theorem withWritten_fits {t : DiskTier K} (h : t.Sound) (k : K) (bytes : Nat)
    (stamps : Timestamps) :
    t.bound.exceededBy (t.withWritten k bytes stamps).order = false :=
  (h.order.pushFront k bytes).trim_fits t.bound (Nat.le_refl _)

structure SameSetup (c c' : Overflow K V) : Prop where
  settings : c'.settings = c.settings
  bound : c'.disk.map DiskTier.bound = c.disk.map DiskTier.bound

omit [DecidableEq K] in
theorem SameSetup.refl (c : Overflow K V) : SameSetup c c := ⟨rfl, rfl⟩

omit [DecidableEq K] in
theorem SameSetup.trans {c c' c'' : Overflow K V} (h : SameSetup c c') (h' : SameSetup c' c'') :
    SameSetup c c'' := ⟨h'.settings.trans h.settings, h'.bound.trans h.bound⟩

theorem Spilled.sameSetup {c : Overflow K V} {w : World} {k : K} {e : Entry V}
    {s : Step (Overflow K V) (Eviction K V) Unit} (h : Spilled c w k e s) :
    SameSetup c s.state := by
  cases h with
  | expired x hx => exact ⟨rfl, rfl⟩
  | dropped hlive hdisk => exact ⟨rfl, rfl⟩
  | unencodable hlive t hdisk fault hencode => exact ⟨rfl, rfl⟩
  | refused hlive t hdisk bytes hencode haccepts => exact ⟨rfl, by rw [hdisk]; rfl⟩
  | written hlive t hdisk bytes hencode haccepts => exact ⟨rfl, by rw [hdisk]; rfl⟩

theorem Spilled.entries {c : Overflow K V} {w : World} {k : K} {e : Entry V}
    {s : Step (Overflow K V) (Eviction K V) Unit} (h : Spilled c w k e s) :
    s.state.entries = c.entries := by
  cases h <;> rfl

theorem Spilled.now {c : Overflow K V} {w : World} {k : K} {e : Entry V}
    {s : Step (Overflow K V) (Eviction K V) Unit} (h : Spilled c w k e s) :
    s.world.now = w.now := by
  cases h <;> rfl

theorem Spilled.sameTiers {c : Overflow K V} {w : World} {k : K} {e : Entry V}
    {s : Step (Overflow K V) (Eviction K V) Unit} (h : Spilled c w k e s) :
    FileArea.SameTiers w.area s.world.area := by
  cases h with
  | expired x hx => exact .refl _
  | dropped hlive hdisk => exact .refl _
  | unencodable hlive t hdisk fault hencode => exact .refl _
  | refused hlive t hdisk bytes hencode haccepts =>
    exact t.write_sameTiers w.area k bytes e.stamps
  | written hlive t hdisk bytes hencode haccepts =>
    exact t.write_sameTiers w.area k bytes e.stamps

theorem Spilled.diskFits {c : Overflow K V} {w : World} {k : K} {e : Entry V}
    {s : Step (Overflow K V) (Eviction K V) Unit} (hs : Spilled c w k e s) (h : c.Tidy)
    (hfits : c.DiskFits) : s.state.DiskFits := by
  cases hs with
  | expired x hx => exact hfits
  | dropped hlive hdisk => exact hfits
  | unencodable hlive t hdisk fault hencode => exact hfits
  | refused hlive t hdisk bytes hencode haccepts =>
    exact diskFits_of_some rfl (Recency.not_exceededBy_remove (hfits t hdisk) k)
  | written hlive t hdisk bytes hencode haccepts =>
    exact diskFits_of_some rfl (withWritten_fits (h.disk t hdisk) k bytes.length e.stamps)

theorem Sink.sameSetup {c : Overflow K V} {w : World}
    {s : Step (Overflow K V) (Eviction K V) Unit} (hs : Sink c w s) (h : c.Sound) :
    SameSetup c s.state := by
  cases hs with
  | @evict k weight rest e hpop hget =>
    have hspilled := ((h.toTidy.dropMemory k).spilled w k e).sameSetup
    exact ⟨hspilled.settings, hspilled.bound⟩
  | expireMemory hget hx =>
    rw [Overflow.expireMemory, hget]
    exact ⟨rfl, rfl⟩
  | @expireDisk t k x hdisk hx =>
    refine ⟨rfl, ?_⟩
    simp only [Overflow.expireDisk, (h.disk t hdisk).remove_tier, hdisk]
    rfl
  | lose hdisk hlive htake hlost => exact ⟨rfl, by rw [hdisk, DiskTier.take_tier htake]; rfl⟩

theorem Sink.memoryFits {c : Overflow K V} {w : World}
    {s : Step (Overflow K V) (Eviction K V) Unit} (hs : Sink c w s) (h : c.Sound)
    (hfits : c.MemoryFits) : s.state.MemoryFits := by
  have hsettings := (hs.sameSetup h).settings
  unfold MemoryFits at hfits ⊢
  rw [hsettings]
  cases hs with
  | @evict k weight rest e hpop hget =>
    rw [spill_state_order]
    exact Recency.not_exceededBy_remove hfits k
  | @expireMemory k e x hget hx =>
    rw [Overflow.expireMemory, hget]
    exact Recency.not_exceededBy_remove hfits k
  | expireDisk hdisk hx => exact hfits
  | lose hdisk hlive htake hlost => exact hfits

theorem Sink.diskFits {c : Overflow K V} {w : World}
    {s : Step (Overflow K V) (Eviction K V) Unit} (hs : Sink c w s) (h : c.Sound)
    (hfits : c.DiskFits) : s.state.DiskFits := by
  cases hs with
  | @evict k weight rest e hpop hget =>
    exact ((h.toTidy.dropMemory k).spilled w k e).diskFits (h.toTidy.dropMemory k) hfits
  | @expireMemory k e x hget hx =>
    rw [Overflow.expireMemory, hget]
    exact hfits
  | @expireDisk t k x hdisk hx =>
    refine diskFits_without hfits hdisk k ?_
    rw [← (h.disk t hdisk).remove_tier w.area k]
    rfl
  | @lose t k taken hdisk hlive htake hlost =>
    exact diskFits_without hfits hdisk k (congrArg some (DiskTier.take_tier htake))

/-! ## Any number of steps -/

/-- Entries sink one after the other; what they log comes in that order. -/
inductive Sinks : Overflow K V → World → Step (Overflow K V) (Eviction K V) Unit → Prop
  | refl (c : Overflow K V) (w : World) : Sinks c w (.pure () c w)
  | step {c : Overflow K V} {w : World} {s s' : Step (Overflow K V) (Eviction K V) Unit}
    (hs : Sink c w s) (hs' : Sinks s.state s.world s') :
    Sinks c w { s' with log := s.log ++ s'.log }

theorem Sinks.keep {P : Overflow K V → World → Prop}
    (hstep : ∀ c w s, Sink c w s → P c w → P s.state s.world) {c : Overflow K V} {w : World}
    {s : Step (Overflow K V) (Eviction K V) Unit} (hs : Sinks c w s) (h : P c w) :
    P s.state s.world := by
  induction hs with
  | refl c w => exact h
  | step hs _ ih => exact ih (hstep _ _ _ hs h)

theorem Sink.sinks {c : Overflow K V} {w : World} {s : Step (Overflow K V) (Eviction K V) Unit}
    (hs : Sink c w s) : Sinks c w s := by
  have hsinks := Sinks.step hs (.refl s.state s.world)
  unfold Step.pure at hsinks
  rwa [List.append_nil] at hsinks

theorem Sinks.sound {c : Overflow K V} {w : World} {s : Step (Overflow K V) (Eviction K V) Unit}
    (hs : Sinks c w s) (h : c.Sound) : s.state.Sound :=
  hs.keep (P := fun c _ => c.Sound) (fun _ _ _ hs h => hs.sound h) h

theorem Sinks.keepOfSound {P : Overflow K V → World → Prop}
    (hstep : ∀ c w s, Sink c w s → c.Sound → P c w → P s.state s.world) {c : Overflow K V}
    {w : World} {s : Step (Overflow K V) (Eviction K V) Unit} (hs : Sinks c w s) (hc : c.Sound)
    (h : P c w) : P s.state s.world :=
  (hs.keep (P := fun c w => c.Sound ∧ P c w)
    (fun c w s hs h => ⟨hs.sound h.1, hstep c w s hs h.1 h.2⟩) ⟨hc, h⟩).2

theorem Sinks.sameSetup {c : Overflow K V} {w : World}
    {s : Step (Overflow K V) (Eviction K V) Unit} (hs : Sinks c w s) (h : c.Sound) :
    SameSetup c s.state :=
  hs.keepOfSound (P := fun c' _ => SameSetup c c')
    (fun _ _ _ hs h hc => hc.trans (hs.sameSetup h)) h (.refl c)

/-! ## The loops -/

inductive Shed (c : Overflow K V) (w : World) :
    Step (Overflow K V) (Eviction K V) Unit → Prop
  | evict {k : K} {weight : Nat} {rest : Recency K} {e : Entry V}
    (hpop : c.order.popBack = some ((k, weight), rest)) (hget : c.entries.get? k = some e) :
    Shed c w ((c.dropMemory k).spill w k e)
  | expireMemory {k : K} {e : Entry V} {x : Expiration} (hget : c.entries.get? k = some e)
    (hx : c.expiration w e = some x) : Shed c w (c.expireMemory w k)
  | expireDisk {t : DiskTier K} {k : K} {x : Expiration} (hdisk : c.disk = some t)
    (hx : t.expiration w.now c.settings.timeToIdle k = some x) : Shed c w (c.expireDisk w t k x)

theorem Shed.sink {c : Overflow K V} {w : World} {s : Step (Overflow K V) (Eviction K V) Unit}
    (hs : Shed c w s) : Sink c w s := by
  cases hs with
  | evict hpop hget => exact .evict hpop hget
  | expireMemory hget hx => exact .expireMemory hget hx
  | expireDisk hdisk hx => exact .expireDisk hdisk hx

inductive Sheds : Overflow K V → World → Step (Overflow K V) (Eviction K V) Unit → Prop
  | refl (c : Overflow K V) (w : World) : Sheds c w (.pure () c w)
  | step {c : Overflow K V} {w : World} {s s' : Step (Overflow K V) (Eviction K V) Unit}
    (hs : Shed c w s) (hs' : Sheds s.state s.world s') :
    Sheds c w { s' with log := s.log ++ s'.log }

theorem Sheds.sinks {c : Overflow K V} {w : World} {s : Step (Overflow K V) (Eviction K V) Unit}
    (hs : Sheds c w s) : Sinks c w s := by
  induction hs with
  | refl c w => exact .refl c w
  | step hs _ ih => exact .step hs.sink ih

theorem Sheds.trans {c : Overflow K V} {w : World}
    {s s' : Step (Overflow K V) (Eviction K V) Unit} (hs : Sheds c w s)
    (hs' : Sheds s.state s.world s') : Sheds c w { s' with log := s.log ++ s'.log } := by
  induction hs with
  | refl c w => exact hs'
  | @step c w s₁ s₂ h₁ h₂ ih =>
    have hlater := Sheds.step h₁ (ih hs')
    rwa [← List.append_assoc] at hlater

/-- Trimming the memory list first and dealing with the popped keys afterwards comes to popping and
dealing with one key at a time. -/
theorem spillAll_trim_sheds (tooFull : Recency K → Bool) (fuel : Nat) {c : Overflow K V}
    (h : c.Sound) (w : World) :
    Sheds c w ({ c with order := (Recency.trim tooFull fuel c.order).1 }.spillAll w
      (Recency.trim tooFull fuel c.order).2) := by
  induction fuel generalizing c w with
  | zero => exact .refl c w
  | succ fuel ih =>
    rw [Recency.trim]
    split
    · split
      · rename_i popped rest hpop
        obtain ⟨k, weight⟩ := popped
        obtain ⟨hrest, hweight, -⟩ := h.order.popBack_eq hpop
        obtain ⟨e, hget, -⟩ := Option.map_eq_some_iff.1 ((h.weights k).symm.trans hweight)
        have hshed : Shed c w ((c.dropMemory k).spill w k e) := .evict hpop hget
        have horder : ((c.dropMemory k).spill w k e).state.order = rest :=
          (spill_state_order _ w k e).trans hrest.symm
        have hlater := ih (hshed.sink.sound h) ((c.dropMemory k).spill w k e).world
        rw [horder] at hlater
        have hspill : { c with
              entries := c.entries.erase k
              order := (Recency.trim tooFull fuel rest).1 }.spill w k e =
            ((c.dropMemory k).spill w k e).mapState fun c =>
              { c with order := (Recency.trim tooFull fuel rest).1 } :=
          spill_order (c.dropMemory k) w k e _
        rw [spillAll]
        simp only [hget, hspill]
        have hstep := Sheds.step hshed hlater
        exact hstep
      · exact .refl c w
    · exact .refl c w

theorem takeIn_sheds {c : Overflow K V} {k : K} {e : Entry V} (h : (c.atFront k e).Sound)
    (w : World) : Sheds (c.atFront k e) w (c.takeIn w k e) :=
  spillAll_trim_sheds c.settings.memoryBound.exceededBy (c.order.pushFront k e.weight).size h w

theorem takeIn_sinks {c : Overflow K V} {k : K} {e : Entry V} (h : (c.atFront k e).Sound)
    (w : World) : Sinks (c.atFront k e) w (c.takeIn w k e) := (takeIn_sheds h w).sinks

theorem spillAll_order (ks : List K) (c : Overflow K V) (w : World) :
    (c.spillAll w ks).state.order = c.order := by
  induction ks generalizing c w with
  | nil => rfl
  | cons k ks ih =>
    rw [spillAll]
    split
    · exact ih c w
    · exact (ih _ _).trans (spill_state_order _ w k _)

theorem takeIn_order (c : Overflow K V) (w : World) (k : K) (e : Entry V) :
    (c.takeIn w k e).state.order = (Recency.trim c.settings.memoryBound.exceededBy
      (c.order.pushFront k e.weight).size (c.order.pushFront k e.weight)).1 :=
  spillAll_order _ _ w

theorem expireAllMemory_sheds (ks : List K) {c : Overflow K V} (h : c.Sound) (w : World)
    (hks : ks.Nodup)
    (hexpired : ∀ k ∈ ks, ∃ e x, c.entries.get? k = some e ∧ c.expiration w e = some x) :
    Sheds c w (c.expireAllMemory w ks) := by
  induction ks generalizing c with
  | nil => exact .refl c w
  | cons k ks ih =>
    obtain ⟨hk, hks⟩ := List.nodup_cons.1 hks
    obtain ⟨e, x, hget, hx⟩ := hexpired k (by simp)
    have hshed : Shed c w (c.expireMemory w k) := .expireMemory hget hx
    have hnext := hshed.sink.sound h
    rw [expireAllMemory]
    refine .step hshed ?_
    rw [expireMemory, hget] at hnext ⊢
    refine ih hnext hks fun k' hk' => ?_
    obtain ⟨e', x', hget', hx'⟩ := hexpired k' (by simp [hk'])
    have hne : k' ≠ k := fun heq => hk (heq ▸ hk')
    exact ⟨e', x', by simp only [Table.get?_erase, if_neg hne, hget'], hx'⟩

theorem expireAllDisk_sheds (expired : List (K × Expiration)) {c : Overflow K V} (h : c.Sound)
    (w : World) (hks : (expired.map Prod.fst).Nodup) {t : DiskTier K} (hdisk : c.disk = some t)
    (hexpired : ∀ k x, (k, x) ∈ expired →
      t.expiration w.now c.settings.timeToIdle k = some x) :
    Sheds c w (c.expireAllDisk w expired) := by
  induction expired generalizing c w t with
  | nil => exact .refl c w
  | cons first rest ih =>
    obtain ⟨k, x⟩ := first
    obtain ⟨hk, hks⟩ := List.nodup_cons.1 hks
    have hshed : Shed c w (c.expireDisk w t k x) := .expireDisk hdisk (hexpired k x (by simp))
    have hnext := hshed.sink.sound h
    rw [expireAllDisk]
    simp only [hdisk]
    refine .step hshed ?_
    refine ih hnext _ hks rfl fun k' x' hk' => ?_
    have hne : k' ≠ k := fun heq => hk (heq ▸ List.mem_map.2 ⟨_, hk', rfl⟩)
    have hsame := hexpired k' x' (by simp [hk'])
    rw [DiskTier.expiration_eq] at hsame ⊢
    rw [(h.disk t hdisk).remove_tier, DiskTier.stamps?_without, if_neg hne]
    exact hsame

theorem purgeExpired_sheds {c : Overflow K V} (h : c.Sound) (w : World) :
    Sheds c w (c.purgeExpired w) := by
  unfold purgeExpired
  split
  · exact .refl c w
  · have hmemory : Sheds c w (c.expireAllMemory w
        (c.entries.entries.filterMap fun e => (c.expiration w e.2).map fun _ => e.1)) := by
      rw [← c.entries.keys_due (c.expiration w)]
      refine expireAllMemory_sheds _ h w (c.entries.nodup_due _) fun k hk => ?_
      obtain ⟨⟨k', x⟩, hdue, rfl⟩ := List.mem_map.1 hk
      obtain ⟨e, hget, hx⟩ := (c.entries.mem_due _ k' x).1 hdue
      exact ⟨e, x, hget, hx⟩
    refine hmemory.trans ?_
    have hnext := hmemory.sinks.sound h
    dsimp only
    split
    · exact .refl _ _
    · rename_i t hdisk
      exact expireAllDisk_sheds _ hnext _ (t.nodup_expiredKeys _ _) hdisk fun k x hk =>
        (t.mem_expiredKeys _ _ k x).1 hk

theorem purgeExpired_sinks {c : Overflow K V} (h : c.Sound) (w : World) :
    Sinks c w (c.purgeExpired w) := (purgeExpired_sheds h w).sinks

end CacheLayer.Overflow
