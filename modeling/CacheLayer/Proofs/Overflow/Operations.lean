import CacheLayer.Proofs.Overflow.Sink

/-!
# The operations of a two-tier cache

Each operation does one thing to the key that it names, and other entries sink. `Sound.insert_eq`,
`Found` and `Removed` say what that one thing is; the steps that follow are `Sinks`.

* `Sound.insert`, `Sound.get`, `Sound.remove`, `Sound.purgeExpired`, `sound_close` : every operation
  leaves the tiers and the index tied to each other.
* `Sound.sameSetup_insert`, `Sound.sameSetup_get`, `Sound.sameSetup_remove`, `sameSetup_close` :
  no operation changes the settings.
* `Fits.insert`, `Fits.get`, `Fits.remove`, `Fits.purgeExpired`, `fits_close` : every operation
  leaves both tiers within their bounds.
-/

namespace CacheLayer.Overflow

variable {K : Type u} {V : Type v} [DecidableEq K]

/-! ## Storing -/

/-- The world after the file of `k` was deleted, if there was one. -/
def clearedWorld (c : Overflow K V) (w : World) (k : K) : World :=
  match c.disk with
  | none => w
  | some t => { w with area := (t.remove w.area k).area }

theorem clearedWorld_of_disk {c : Overflow K V} {t : DiskTier K} (h : c.disk = some t) (w : World)
    (k : K) : c.clearedWorld w k = { w with area := (t.remove w.area k).area } := by
  simp only [clearedWorld, h]

/-- The entry that is stored for a value. -/
def freshEntry (c : Overflow K V) (w : World) (value : Shared V) : Entry V :=
  ⟨value, c.weigh value.value, .create w.now c.settings.timeToLive c.settings.timeToIdle⟩

def countInsert (c : Overflow K V) : Overflow K V :=
  { c with metrics := { c.metrics with inserts := c.metrics.inserts + 1 } }

theorem Sound.insert_eq {c : Overflow K V} (h : c.Sound) (w : World) (k : K) (value : Shared V) :
    c.insert w k value = (((c.dropMemory k).dropDisk k).takeIn (c.clearedWorld w k) k
      (c.freshEntry w value)).mapState countInsert := by
  obtain ⟨settings, entries, order, disk, keyIndex, metrics⟩ := c
  cases disk with
  | none => rfl
  | some t =>
    have htier := (h.disk t rfl).remove_tier w.area k
    unfold insert
    simp only [htier]
    rfl

/-! ## Looking up -/

/-- The cache and the world after an entry was taken off the disk. -/
def lifted (c : Overflow K V) (t : DiskTier K) (k : K) : Overflow K V :=
  { c with
    disk := some (t.without k)
    metrics := { c.metrics with diskHits := c.metrics.diskHits + 1 } }

/-- How the entry that is looked up goes. -/
inductive Gone (c : Overflow K V) (w : World) (k : K) :
    Step (Overflow K V) (Eviction K V) Unit → Prop
  | expiredInMemory {e : Entry V} {x : Expiration} (hget : c.entries.get? k = some e)
    (hx : c.expiration w e = some x) : Gone c w k (c.expireMemory w k)
  | expiredOnDisk {t : DiskTier K} {x : Expiration} (hmemory : c.entries.get? k = none)
    (hdisk : c.disk = some t) (hx : t.expiration w.now c.settings.timeToIdle k = some x) :
    Gone c w k (c.expireDisk w t k x)
  /-- The file cannot be read, or what lies in it is no value. -/
  | lost {t : DiskTier K} {taken : DiskTier.Change K (Option (List UInt8 × Timestamps))}
    (hmemory : c.entries.get? k = none) (hdisk : c.disk = some t)
    (hlive : t.expiration w.now c.settings.timeToIdle k = none)
    (htake : t.take w.area k = some taken)
    (hunread : ∀ bytes v, t.content? w.area k = some bytes → c.settings.codec.read bytes ≠ .ok v) :
    Gone c w k
      ⟨(), { c.forget k with disk := some taken.tier }, { w with area := taken.area }, []⟩

theorem Gone.sink {c : Overflow K V} {w : World} {k : K}
    {s : Step (Overflow K V) (Eviction K V) Unit} (hs : Gone c w k s) : Sink c w s := by
  cases hs with
  | expiredInMemory hget hx => exact .expireMemory hget hx
  | expiredOnDisk hmemory hdisk hx => exact .expireDisk hdisk hx
  | lost hmemory hdisk hlive htake hunread =>
    refine .lose hdisk hlive htake fun bytes stamps v hanswer => ?_
    rcases DiskTier.take_cases htake with ⟨-, rfl⟩ | ⟨bytes', stamps', hcontent, -, rfl⟩
    · cases hanswer
    · obtain ⟨rfl, rfl⟩ := Prod.mk.inj (Option.some.inj hanswer)
      exact hunread _ v hcontent

inductive Found (c : Overflow K V) (w : World) (k : K) :
    Step (Overflow K V) (Eviction K V) (Option (Shared V)) → Prop
  | absent (hmemory : c.inMemory k = false) (hdisk : c.onDisk k = false) :
    Found c w k (.pure none c w)
  /-- The entry is expired, or its file is lost. -/
  | gone {s : Step (Overflow K V) (Eviction K V) Unit} (hs : Gone c w k s) :
    Found c w k (s.mapAnswer fun _ => none)
  | hit {e : Entry V} (hget : c.entries.get? k = some e) (hlive : c.expiration w e = none) :
    Found c w k (.pure (some e.value)
      { c with
        entries := c.entries.insert k { e with stamps := c.touched w e.stamps }
        order := c.order.moveToFront k } w)
  | promoted {t : DiskTier K} {bytes : List UInt8} {stamps : Timestamps} {v : V}
    (hmemory : c.entries.get? k = none) (hdisk : c.disk = some t)
    (hstamps : t.stamps? k = some stamps) (hlive : stamps.expiration w.now c.settings.timeToIdle = none)
    (hcontent : t.content? w.area k = some bytes) (hread : c.settings.codec.read bytes = .ok v) :
    Found c w k (((c.lifted t k).takeIn
      (World.share { w with area := (t.deleteSlot w.area k).2 } v).2 k
      ⟨⟨w.nextId, v⟩, c.weigh v, c.touched w stamps⟩).mapAnswer fun _ => some ⟨w.nextId, v⟩)

theorem promote_found {c : Overflow K V} {w : World} {k : K} (hget : c.entries.get? k = none) :
    Found c w k (c.promote w k) := by
  unfold promote
  split
  · rename_i hdisk
    exact .absent (not_inMemory_of_get? hget) (onDisk_of_none hdisk k)
  · rename_i t hdisk
    split
    · rename_i x hx
      exact .gone (.expiredOnDisk hget hdisk hx)
    · rename_i hlive
      split
      · rename_i htake
        refine .absent (not_inMemory_of_get? hget) ?_
        rw [onDisk_of_disk hdisk]
        exact (DiskTier.take_eq_none_iff t w.area k).1 htake
      · rename_i taken htake
        rcases DiskTier.take_cases htake with
          ⟨hcontent, rfl⟩ | ⟨bytes, stamps, hcontent, hstamps, rfl⟩
        · refine .gone (.lost hget hdisk hlive htake fun bytes v hbytes => ?_)
          rw [hcontent] at hbytes
          cases hbytes
        · dsimp only
          split
          · rename_i fault hread
            refine .gone (.lost hget hdisk hlive htake fun bytes' v hbytes => ?_)
            rw [hcontent] at hbytes
            rw [← Option.some.inj hbytes, hread]
            exact nofun
          · rename_i v hread
            rw [DiskTier.expiration_eq, hstamps] at hlive
            exact .promoted hget hdisk hstamps hlive hcontent hread

theorem find_found (c : Overflow K V) (w : World) (k : K) : Found c w k (c.find w k) := by
  unfold find
  split
  · rename_i hget
    exact promote_found hget
  · rename_i e hget
    split
    · rename_i x hx
      exact .gone (.expiredInMemory hget hx)
    · rename_i hlive
      exact .hit hget hlive

theorem find_of_absent {c : Overflow K V} (w : World) {k : K} (hmemory : c.inMemory k = false)
    (hdisk : c.onDisk k = false) : c.find w k = .pure none c w := by
  obtain ⟨settings, entries, order, disk, keyIndex, metrics⟩ := c
  unfold find
  simp only [get?_of_not_inMemory hmemory]
  cases disk with
  | none => rfl
  | some t =>
    have hcontains : t.contains k = false := hdisk
    have hlive : t.expiration w.now settings.timeToIdle k = none := by
      rw [DiskTier.expiration, Table.get?_eq_none_of_contains hcontains]
      rfl
    unfold promote
    simp only [hlive, (DiskTier.take_eq_none_iff t w.area k).2 hcontains]

def countLookup (answer : Option (Shared V)) (c : Overflow K V) : Overflow K V :=
  { c with metrics := if answer.isSome then c.metrics.hit else c.metrics.miss }

theorem get_eq (c : Overflow K V) (w : World) (k : K) :
    c.get w k = (c.find w k).mapState (countLookup (c.find w k).answer) := rfl

theorem lifted_vacant {c : Overflow K V} (h : c.Sound) {t : DiskTier K} {k : K}
    (hmemory : c.entries.get? k = none) (hdisk : c.disk = some t) : (c.lifted t k).Vacant k := by
  have hvacant := h.dropDisk (not_inMemory_of_get? hmemory)
  rw [dropDisk_eq hdisk] at hvacant
  exact ⟨⟨hvacant.order, hvacant.weights, hvacant.disk, hvacant.apart⟩, hvacant.notInMemory,
    hvacant.notOnDisk, hvacant.index⟩

/-! ## Removing -/

def countRemoval (c : Overflow K V) : Overflow K V :=
  { c with metrics := { c.metrics with removals := c.metrics.removals + 1 } }

inductive Removed (c : Overflow K V) (w : World) (k : K) :
    Step (Overflow K V) (Eviction K V) Bool → Prop
  | absent (hmemory : c.inMemory k = false) (hdisk : c.onDisk k = false) :
    Removed c w k (.pure false (c.forget k) w)
  | expired {e : Entry V} {x : Expiration} (hget : c.entries.get? k = some e)
    (hx : c.expiration w e = some x) :
    Removed c w k ⟨false, { (c.dropMemory k).forget k with metrics := c.metrics.expired x }, w,
      [⟨k, some e.value, .expired⟩]⟩
  | fromMemory {e : Entry V} (hget : c.entries.get? k = some e) (hlive : c.expiration w e = none) :
    Removed c w k ⟨true, countRemoval ((c.dropMemory k).forget k), w, [⟨k, some e.value, .removed⟩]⟩
  /-- On disk the stamps are not looked at. -/
  | fromDisk {t : DiskTier K} (hmemory : c.inMemory k = false) (hdisk : c.disk = some t)
    (hcontains : t.contains k = true) :
    Removed c w k ⟨true, countRemoval ((c.dropDisk k).forget k),
      { w with area := (t.remove w.area k).area }, [⟨k, none, .removed⟩]⟩

theorem Sound.removed {c : Overflow K V} (h : c.Sound) (w : World) (k : K) :
    Removed c w k (c.remove w k) := by
  obtain ⟨settings, entries, order, disk, keyIndex, metrics⟩ := c
  unfold remove
  dsimp only
  split
  · rename_i e hget
    split
    · rename_i x hx
      exact .expired hget hx
    · rename_i hlive
      exact .fromMemory hget hlive
  · rename_i hget
    cases disk with
    | none => exact .absent (not_inMemory_of_get? hget) rfl
    | some t =>
      have ht := h.disk t rfl
      simp only [ht.remove_answer, ht.remove_tier]
      cases hcontains : t.contains k with
      | true => exact .fromDisk (not_inMemory_of_get? hget) rfl hcontains
      | false =>
        rw [ht.without_eq_self hcontains, ht.remove_area hcontains]
        exact .absent (not_inMemory_of_get? hget) hcontains

theorem Tidy.dropMemory_eq_self {c : Overflow K V} (h : c.Tidy) {k : K}
    (hk : c.inMemory k = false) : c.dropMemory k = c := by
  have hlisted : k ∉ c.order.keys := by
    rw [h.mem_order, hk]
    exact Bool.false_ne_true
  rw [Overflow.dropMemory, Table.erase_of_not_contains hk, Recency.remove_of_not_mem hlisted]

theorem Tidy.dropDisk_eq_self {c : Overflow K V} (h : c.Tidy) {k : K} (hk : c.onDisk k = false) :
    c.dropDisk k = c := by
  obtain ⟨settings, entries, order, disk, keyIndex, metrics⟩ := c
  cases disk with
  | none => rfl
  | some t => rw [dropDisk_eq rfl, (h.disk t rfl).without_eq_self hk]

theorem Tidy.clearedWorld_eq_self {c : Overflow K V} (h : c.Tidy) (w : World) {k : K}
    (hk : c.onDisk k = false) : c.clearedWorld w k = w := by
  obtain ⟨settings, entries, order, disk, keyIndex, metrics⟩ := c
  cases disk with
  | none => rfl
  | some t => rw [clearedWorld_of_disk rfl, (h.disk t rfl).remove_area hk]

/-- Wherever an entry is, a removal takes it out of both tiers and the index, and deletes its file. -/
theorem Removed.state_eq {c : Overflow K V} {w : World} {k : K}
    {s : Step (Overflow K V) (Eviction K V) Bool} (hs : Removed c w k s) (h : c.Sound) :
    s.state = { ((c.dropMemory k).dropDisk k).forget k with metrics := s.state.metrics } ∧
      s.world = c.clearedWorld w k := by
  cases hs with
  | absent hmemory hdisk =>
    rw [h.dropMemory_eq_self hmemory, h.dropDisk_eq_self hdisk, h.clearedWorld_eq_self w hdisk]
    exact ⟨rfl, rfl⟩
  | expired hget hx =>
    have hdisk := h.not_onDisk hget
    rw [(h.toTidy.dropMemory k).dropDisk_eq_self hdisk, h.clearedWorld_eq_self w hdisk]
    exact ⟨rfl, rfl⟩
  | fromMemory hget hlive =>
    have hdisk := h.not_onDisk hget
    rw [(h.toTidy.dropMemory k).dropDisk_eq_self hdisk, h.clearedWorld_eq_self w hdisk]
    exact ⟨rfl, rfl⟩
  | fromDisk hmemory hdisk hcontains =>
    rw [h.dropMemory_eq_self hmemory, clearedWorld_of_disk hdisk]
    exact ⟨rfl, rfl⟩

theorem Sound.remove_state {c : Overflow K V} (h : c.Sound) (w : World) (k : K) :
    (c.remove w k).state = { ((c.dropMemory k).dropDisk k).forget k with
      metrics := (c.remove w k).state.metrics } := ((h.removed w k).state_eq h).1

theorem Sound.remove_world {c : Overflow K V} (h : c.Sound) (w : World) (k : K) :
    (c.remove w k).world = c.clearedWorld w k := ((h.removed w k).state_eq h).2

/-! ## Every operation keeps the tiers tied to each other -/

theorem Sound.used {c : Overflow K V} (h : c.Sound) {k : K} {e : Entry V}
    (hget : c.entries.get? k = some e) (stamps : Timestamps) :
    Sound { c with
      entries := c.entries.insert k { e with stamps }
      order := c.order.moveToFront k } := by
  have hcontains (k' : K) :
      (c.entries.insert k { e with stamps }).contains k' = c.inMemory k' := by
    rw [Table.contains_insert]
    by_cases hk : k' = k
    · rw [hk, decide_eq_true rfl, Bool.true_or, inMemory_of_get? hget]
    · rw [decide_eq_false hk, Bool.false_or]
      rfl
  refine ⟨⟨h.order.moveToFront k, fun k' => ?_, h.disk, fun k' hk' => ?_⟩, fun k' => ?_⟩
  · rw [Recency.weight?_moveToFront, Table.get?_insert, h.weights]
    split
    · rename_i hk
      rw [hk, hget]
      rfl
    · rfl
  · exact h.apart k' ((hcontains k').symm.trans hk')
  · show c.keyIndex.contains k' =
      ((c.entries.insert k { e with stamps }).contains k' || c.onDisk k')
    rw [hcontains]
    exact h.index k'

theorem Sound.insert {c : Overflow K V} (h : c.Sound) (w : World) (k : K) (value : Shared V) :
    (c.insert w k value).state.Sound := by
  have hfront := (h.dropBoth k).atFront (c.freshEntry w value)
  rw [h.insert_eq]
  exact ((takeIn_sinks hfront (c.clearedWorld w k)).sound hfront).withMetrics _

theorem Found.sound {c : Overflow K V} {w : World} {k : K}
    {s : Step (Overflow K V) (Eviction K V) (Option (Shared V))} (hs : Found c w k s)
    (h : c.Sound) : s.state.Sound := by
  cases hs with
  | absent hmemory hdisk => exact h
  | gone hs => exact hs.sink.sound h
  | hit hget hlive => exact h.used hget _
  | promoted hmemory hdisk hstamps hlive hcontent hread =>
    have hfront := (lifted_vacant h hmemory hdisk).atFront
    exact (takeIn_sinks (hfront _) _).sound (hfront _)

theorem Sound.get {c : Overflow K V} (h : c.Sound) (w : World) (k : K) :
    (c.get w k).state.Sound := by
  rw [get_eq]
  exact ((find_found c w k).sound h).withMetrics _

theorem Sound.remove {c : Overflow K V} (h : c.Sound) (w : World) (k : K) :
    (c.remove w k).state.Sound := by
  rw [h.remove_state]
  exact (h.dropBoth k).forget.withMetrics _

theorem Sound.purgeExpired {c : Overflow K V} (h : c.Sound) (w : World) :
    (c.purgeExpired w).state.Sound := (purgeExpired_sinks h w).sound h

omit [DecidableEq K] in
theorem close_state (c : Overflow K V) (w : World) :
    (c.close w).state = { c with
      entries := .empty
      order := .empty
      keyIndex := .empty
      disk := c.disk.map fun t => ⟨none, .empty, .empty, t.bound, t.nextFileId⟩ } := by
  obtain ⟨settings, entries, order, disk, keyIndex, metrics⟩ := c
  cases disk <;> rfl

theorem sound_close (c : Overflow K V) (w : World) : (c.close w).state.Sound := by
  rw [close_state]
  obtain ⟨settings, entries, order, disk, keyIndex, metrics⟩ := c
  refine ⟨⟨Recency.sound_empty, fun k => rfl, fun t ht => ?_, fun k hk => ?_⟩, fun k => ?_⟩
  · obtain ⟨t₀, -, rfl⟩ := Option.map_eq_some_iff.1 ht
    exact DiskTier.sound_empty none t₀.bound t₀.nextFileId
  · cases hk
  · cases disk <;> rfl

/-! ## Every operation keeps the settings -/

omit [DecidableEq K] in
theorem SameSetup.of_disk_map {c c' : Overflow K V} {f : DiskTier K → DiskTier K}
    (hsettings : c'.settings = c.settings) (hdisk : c'.disk = c.disk.map f)
    (hf : ∀ t, (f t).bound = t.bound) : SameSetup c c' := by
  refine ⟨hsettings, ?_⟩
  rw [hdisk, Option.map_map]
  cases c.disk with
  | none => rfl
  | some t => exact congrArg some (hf t)

theorem Sound.sameSetup_insert {c : Overflow K V} (h : c.Sound) (w : World) (k : K)
    (value : Shared V) : SameSetup c (c.insert w k value).state := by
  have hfront := (h.dropBoth k).atFront (c.freshEntry w value)
  have hclear : SameSetup c (((c.dropMemory k).dropDisk k).atFront k (c.freshEntry w value)) :=
    .of_disk_map rfl rfl fun _ => rfl
  rw [h.insert_eq]
  have htaken := hclear.trans ((takeIn_sinks hfront (c.clearedWorld w k)).sameSetup hfront)
  exact ⟨htaken.settings, htaken.bound⟩

theorem Found.sameSetup {c : Overflow K V} {w : World} {k : K}
    {s : Step (Overflow K V) (Eviction K V) (Option (Shared V))} (hs : Found c w k s)
    (h : c.Sound) : SameSetup c s.state := by
  cases hs with
  | absent hmemory hdisk => exact .refl c
  | gone hs => exact hs.sink.sameSetup h
  | hit hget hlive => exact ⟨rfl, rfl⟩
  | @promoted t bytes stamps v hmemory hdisk hstamps hlive hcontent hread =>
    have hfront := (lifted_vacant h hmemory hdisk).atFront
    have hlifted : ∀ e, SameSetup c ((c.lifted t k).atFront k e) := fun e =>
      ⟨rfl, by rw [hdisk]; rfl⟩
    exact (hlifted _).trans ((takeIn_sinks (hfront _) _).sameSetup (hfront _))

theorem Sound.sameSetup_get {c : Overflow K V} (h : c.Sound) (w : World) (k : K) :
    SameSetup c (c.get w k).state := by
  have hfound := (find_found c w k).sameSetup h
  rw [get_eq]
  exact ⟨hfound.settings, hfound.bound⟩

theorem Sound.sameSetup_remove {c : Overflow K V} (h : c.Sound) (w : World) (k : K) :
    SameSetup c (c.remove w k).state := by
  rw [h.remove_state]
  exact .of_disk_map rfl rfl fun _ => rfl

omit [DecidableEq K] in
theorem sameSetup_close (c : Overflow K V) (w : World) : SameSetup c (c.close w).state := by
  rw [close_state]
  exact .of_disk_map rfl rfl fun _ => rfl

/-! ## Every operation keeps both tiers within their bounds -/

structure Fits (c : Overflow K V) : Prop where
  memory : c.MemoryFits
  disk : c.DiskFits

theorem Sinks.fits {c : Overflow K V} {w : World} {s : Step (Overflow K V) (Eviction K V) Unit}
    (hs : Sinks c w s) (h : c.Sound) (hfits : c.Fits) : s.state.Fits :=
  hs.keepOfSound (P := fun c _ => c.Fits)
    (fun _ _ _ hs h hfits => ⟨hs.memoryFits h hfits.memory, hs.diskFits h hfits.disk⟩) h hfits

theorem takeIn_fits {c : Overflow K V} {k : K} {e : Entry V} (h : (c.atFront k e).Sound)
    (hdisk : c.DiskFits) (w : World) : (c.takeIn w k e).state.Fits where
  memory := by
    unfold MemoryFits
    rw [takeIn_order, ((takeIn_sinks h w).sameSetup h).settings]
    exact h.order.trim_fits c.settings.memoryBound (Nat.le_refl _)
  disk := (takeIn_sinks h w).keepOfSound (P := fun c _ => c.DiskFits)
    (fun _ _ _ hs h hfits => hs.diskFits h hfits) h hdisk

theorem DiskFits.dropDisk {c : Overflow K V} (h : c.DiskFits) (k : K) :
    (c.dropDisk k).DiskFits := by
  intro t ht
  obtain ⟨t₀, ht₀, rfl⟩ := Option.map_eq_some_iff.1 ht
  exact Recency.not_exceededBy_remove (h t₀ ht₀) k

theorem Fits.insert {c : Overflow K V} (hfits : c.Fits) (h : c.Sound) (w : World) (k : K)
    (value : Shared V) : (c.insert w k value).state.Fits := by
  have hfront := (h.dropBoth k).atFront (c.freshEntry w value)
  have hdisk : ((c.dropMemory k).dropDisk k).DiskFits := hfits.disk.dropDisk k
  rw [h.insert_eq]
  have htaken := takeIn_fits hfront hdisk (c.clearedWorld w k)
  exact ⟨htaken.memory, htaken.disk⟩

theorem Found.fits {c : Overflow K V} {w : World} {k : K}
    {s : Step (Overflow K V) (Eviction K V) (Option (Shared V))} (hs : Found c w k s)
    (h : c.Sound) (hfits : c.Fits) : s.state.Fits := by
  cases hs with
  | absent hmemory hdisk => exact hfits
  | gone hs => exact hs.sink.sinks.fits h hfits
  | hit hget hlive => exact ⟨Recency.not_exceededBy_moveToFront h.order hfits.memory k, hfits.disk⟩
  | @promoted t bytes stamps v hmemory hdisk hstamps hlive hcontent hread =>
    have hfront := (lifted_vacant h hmemory hdisk).atFront
    have hlifted : (c.lifted t k).DiskFits := diskFits_without hfits.disk hdisk k rfl
    exact takeIn_fits (hfront _) hlifted _

theorem Fits.get {c : Overflow K V} (hfits : c.Fits) (h : c.Sound) (w : World) (k : K) :
    (c.get w k).state.Fits := by
  have hfound := (find_found c w k).fits h hfits
  rw [get_eq]
  exact ⟨hfound.memory, hfound.disk⟩

theorem Fits.remove {c : Overflow K V} (hfits : c.Fits) (h : c.Sound) (w : World) (k : K) :
    (c.remove w k).state.Fits := by
  rw [h.remove_state]
  exact ⟨Recency.not_exceededBy_remove hfits.memory k, hfits.disk.dropDisk k⟩

theorem Fits.purgeExpired {c : Overflow K V} (hfits : c.Fits) (h : c.Sound) (w : World) :
    (c.purgeExpired w).state.Fits := (purgeExpired_sinks h w).fits h hfits

omit [DecidableEq K] in
theorem fits_make (settings : OverflowSettings V) (disk : Option (DiskTier K)) (now : Nat)
    (hdisk : ∀ t, disk = some t → t.order.keys = [] ∧ t.order.Sound) :
    (make settings disk now).Fits where
  memory := Recency.not_exceededBy_of_keys_eq_nil Recency.sound_empty _ rfl
  disk t ht := Recency.not_exceededBy_of_keys_eq_nil (hdisk t ht).2 _ (hdisk t ht).1

omit [DecidableEq K] in
theorem fits_close (c : Overflow K V) (w : World) : (c.close w).state.Fits := by
  rw [close_state]
  refine ⟨Recency.not_exceededBy_of_keys_eq_nil Recency.sound_empty _ rfl, fun t ht => ?_⟩
  obtain ⟨t₀, -, rfl⟩ := Option.map_eq_some_iff.1 ht
  exact Recency.not_exceededBy_of_keys_eq_nil Recency.sound_empty _ rfl

end CacheLayer.Overflow
