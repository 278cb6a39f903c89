import CacheLayer.Proofs.Events
import CacheLayer.Proofs.Overflow.Account

/-!
# What a two-tier cache tells and counts

The events of an operation are those of its movements, and so are most of its counters. The others
count look-ups and what goes to the disk and comes back from there.

* `toldFor_eventsOf` : the events of movements are as many as the movements that are counted.
* `Quiet` : what the counters do that no event tells of.
* `Sound.quiet_perform` : how they change in an operation.
* `Sound.tell_perform` : an operation counts what it tells.
-/

namespace CacheLayer.Overflow

variable {K : Type u} {V : Type v} [DecidableEq K]

/-! ## Events -/

omit [DecidableEq K] in
theorem toldFor_eventsOf (ms : List (Movement K V)) :
    toldFor .removed (eventsOf ms) = counts .removals ms ∧
      toldFor .expired (eventsOf ms) = counts .timeToLive ms + counts .timeToIdle ms ∧
      toldFor .reclaimed (eventsOf ms) = 0 ∧
      toldFor .capacity (eventsOf ms) + toldFor .overflow (eventsOf ms) =
        counts .capacity ms + counts .writeFailures ms := by
  induction ms with
  | nil => exact ⟨rfl, rfl, rfl, rfl⟩
  | cons m ms ih =>
    obtain ⟨hremoved, hexpired, hreclaimed, hcrowded⟩ := ih
    obtain ⟨key, cause, before, after, value⟩ := m
    rw [eventsOf_cons]
    simp only [toldFor_append, counts_cons]
    cases cause with
    | expired x =>
      cases x <;> simp [Movement.event?, Cause.reason?, Cause.counter?, toldFor_cons] <;> omega
    | _ =>
      simp [Movement.event?, Cause.reason?, Cause.counter?, toldFor_cons]
      omega

/-! ## Counters without events -/

def books (c : Overflow K V) : Books := ⟨c.metrics, c.diskSize⟩

/-- What the counters do, from `c` to `c'`, that no event tells of: nothing is reclaimed, every look-up
is a hit or a miss, and what comes back from disk is a hit, was spilled and no longer lies there. -/
structure Quiet (c c' : Overflow K V) (lookups : Nat) : Prop where
  reclaimed : c'.metrics.reclaimed = c.metrics.reclaimed
  lookedUp : c'.metrics.hits + c'.metrics.misses = c.metrics.hits + c.metrics.misses + lookups
  diskHits : c'.metrics.diskHits + c.metrics.hits ≤ c.metrics.diskHits + c'.metrics.hits
  drained : c'.metrics.diskHits + c'.diskSize + c.metrics.spilledToDisk ≤
    c.metrics.diskHits + c.diskSize + c'.metrics.spilledToDisk

namespace Quiet

variable {c c' c'' : Overflow K V} {n n' : Nat}

omit [DecidableEq K] in
theorem trans (h : Quiet c c' n) (h' : Quiet c' c'' n') : Quiet c c'' (n + n') := by
  obtain ⟨hreclaimed, hlookedUp, hdiskHits, hdrained⟩ := h
  obtain ⟨hreclaimed', hlookedUp', hdiskHits', hdrained'⟩ := h'
  constructor <;> omega

omit [DecidableEq K] in
theorem of_le (hmetrics : c'.metrics = c.metrics) (hsize : c'.diskSize ≤ c.diskSize) :
    Quiet c c' 0 := by
  constructor <;> rw [hmetrics] <;> omega

omit [DecidableEq K] in
theorem of_expired {x : Expiration} (hmetrics : c'.metrics = c.metrics.expired x)
    (hsize : c'.diskSize ≤ c.diskSize) : Quiet c c' 0 := by
  constructor <;> rw [hmetrics] <;> cases x <;> simp only [Metrics.expired] <;> omega

omit [DecidableEq K] in
theorem counted (h : Quiet c c' 0) (answer : Option (Shared V)) :
    Quiet c (Overflow.countLookup answer c') 1 := by
  have hlookedUp : Quiet c' (Overflow.countLookup answer c') 1 := by
    cases answer with
    | none => exact ⟨rfl, rfl, Nat.le_refl _, Nat.le_refl _⟩
    | some value =>
      exact ⟨rfl, Nat.add_right_comm .., Nat.add_le_add_left (Nat.le_succ _) _, Nat.le_refl _⟩
  exact h.trans hlookedUp

omit [DecidableEq K] in
/-- An entry that is taken off the disk is counted as a hit there, and the look-up as a hit. -/
theorem of_promoted {c₁ c₂ : Overflow K V} {value : Shared V}
    (hmetrics : c₁.metrics = { c.metrics with diskHits := c.metrics.diskHits + 1 })
    (hsize : c₁.diskSize < c.diskSize) (h : Quiet c₁ c₂ 0) :
    Quiet c (Overflow.countLookup (some value) c₂) 1 := by
  obtain ⟨hreclaimed, hlookedUp, hdiskHits, hdrained⟩ := h
  rw [hmetrics] at hreclaimed hlookedUp hdiskHits hdrained
  have hcounted : (Overflow.countLookup (some value) c₂).metrics = c₂.metrics.hit := rfl
  have hdisk : (Overflow.countLookup (some value) c₂).diskSize = c₂.diskSize := rfl
  constructor <;> simp only [hcounted, hdisk, Metrics.hit] <;> dsimp only at * <;> omega

end Quiet

section

variable {c : Overflow K V} {w : World} {k : K}

omit [DecidableEq K] in
theorem diskSize_of_disk {t : DiskTier K} (h : c.disk = some t) : c.diskSize = t.slots.size := by
  rw [diskSize, h]
  rfl

theorem diskSize_dropDisk_le (c : Overflow K V) (k : K) : (c.dropDisk k).diskSize ≤ c.diskSize := by
  unfold diskSize dropDisk
  cases c.disk with
  | none => exact Nat.le_refl _
  | some t => exact t.slots.size_erase_le k

theorem Spilled.quiet {e : Entry V} {s : Step (Overflow K V) (Eviction K V) Unit}
    (hs : Spilled c w k e s) : Quiet c s.state 0 := by
  cases hs with
  | expired x hx => exact .of_expired rfl (Nat.le_refl _)
  | dropped hlive hdisk => exact ⟨rfl, rfl, Nat.le_refl _, Nat.le_refl _⟩
  | unencodable hlive t hdisk fault hencode => exact ⟨rfl, rfl, Nat.le_refl _, Nat.le_refl _⟩
  | refused hlive t hdisk bytes hencode haccepts =>
    have hsize := t.slots.size_erase_le k
    rw [← diskSize_of_disk hdisk] at hsize
    exact ⟨rfl, rfl, Nat.le_refl _, Nat.add_le_add_right (Nat.add_le_add_left hsize _) _⟩
  | written hlive t hdisk bytes hencode haccepts =>
    have hkept := Table.size_foldl_erase_le (t.listed k bytes.length).2
      (t.slots.insert k ⟨t.nextFileId, e.stamps⟩)
    have hsize := Nat.le_trans hkept (t.slots.size_insert_le k _)
    rw [← diskSize_of_disk hdisk] at hsize
    refine ⟨rfl, rfl, Nat.le_refl _, ?_⟩
    show c.metrics.diskHits + (t.withWritten k bytes.length e.stamps).slots.size +
      c.metrics.spilledToDisk ≤ c.metrics.diskHits + c.diskSize + (c.metrics.spilledToDisk + 1)
    have hwritten : (t.withWritten k bytes.length e.stamps).slots.size ≤ c.diskSize + 1 := hsize
    omega

theorem Sink.quiet {s : Step (Overflow K V) (Eviction K V) Unit} (hs : Sink c w s)
    (hc : c.Sound) : Quiet c s.state 0 := by
  cases hs with
  | @evict k weight rest e hpop hget =>
    have hdropped : Quiet c (c.dropMemory k) 0 := .of_le rfl (Nat.le_refl _)
    exact hdropped.trans ((hc.toTidy.dropMemory k).spilled w k e).quiet
  | @expireMemory k e x hget hx =>
    simp only [Overflow.expireMemory, hget, hx]
    exact .of_expired rfl (Nat.le_refl _)
  | @expireDisk t k x hdisk hx =>
    refine .of_expired rfl ?_
    rw [diskSize_of_disk hdisk]
    show ((t.remove w.area k).tier).slots.size ≤ _
    rw [(hc.disk t hdisk).remove_tier]
    exact t.slots.size_erase_le k
  | @lose t k taken hdisk hlive htake hlost =>
    refine .of_le rfl ?_
    rw [diskSize_of_disk hdisk]
    show taken.tier.slots.size ≤ _
    rw [DiskTier.take_tier htake]
    exact t.slots.size_erase_le k

theorem Sinks.quiet {s : Step (Overflow K V) (Eviction K V) Unit} (hs : Sinks c w s)
    (hc : c.Sound) : Quiet c s.state 0 :=
  hs.keepOfSound (P := fun c' _ => Quiet c c' 0) (fun _ _ _ hs h hquiet => hquiet.trans (hs.quiet h))
    hc (.of_le rfl (Nat.le_refl _))

theorem Sound.quiet_insert (hc : c.Sound) (w : World) (k : K) (value : Shared V) :
    Quiet c (c.insert w k value).state 0 := by
  have hfront := (hc.dropBoth k).atFront (c.freshEntry w value)
  have hcleared : Quiet c (((c.dropMemory k).dropDisk k).atFront k (c.freshEntry w value)) 0 :=
    .of_le rfl ((c.dropMemory k).diskSize_dropDisk_le k)
  have htaken := hcleared.trans ((takeIn_sinks hfront (c.clearedWorld w k)).quiet hfront)
  rw [hc.insert_eq]
  exact ⟨htaken.reclaimed, htaken.lookedUp, htaken.diskHits, htaken.drained⟩

theorem Sound.quiet_get (hc : c.Sound) (w : World) (k : K) : Quiet c (c.get w k).state 1 := by
  have hfound := find_found c w k
  rw [get_eq]
  generalize c.find w k = s at hfound ⊢
  cases hfound with
  | absent hmemory hdisk => exact Quiet.counted (.of_le rfl (Nat.le_refl _)) none
  | gone hs => exact (hs.sink.quiet hc).counted none
  | @hit e hget hlive =>
    have hused : Quiet c { c with
        entries := c.entries.insert k { e with stamps := c.touched w e.stamps }
        order := c.order.moveToFront k } 0 := .of_le rfl (Nat.le_refl _)
    exact hused.counted (some e.value)
  | @promoted t bytes stamps v hmemory hdisk hstamps hlive hcontent hread =>
    have hfront := (lifted_vacant hc hmemory hdisk).atFront
      ⟨⟨w.nextId, v⟩, c.weigh v, c.touched w stamps⟩
    have hcontains : t.contains k = true := by rw [DiskTier.contains_eq_isSome, hstamps]; rfl
    have hsize := Table.size_erase_lt hcontains
    rw [← diskSize_of_disk hdisk] at hsize
    have hlifted : ((c.lifted t k).atFront k
        ⟨⟨w.nextId, v⟩, c.weigh v, c.touched w stamps⟩).diskSize < c.diskSize := hsize
    exact .of_promoted rfl hlifted ((takeIn_sinks hfront _).quiet hfront)

theorem Sound.quiet_remove (hc : c.Sound) (w : World) (k : K) :
    Quiet c (c.remove w k).state 0 := by
  have hremoved := hc.removed w k
  generalize c.remove w k = s at hremoved ⊢
  cases hremoved with
  | absent hmemory hdisk => exact .of_le rfl (Nat.le_refl _)
  | expired hget hx => exact .of_expired rfl (Nat.le_refl _)
  | fromMemory hget hlive => exact ⟨rfl, rfl, Nat.le_refl _, Nat.le_refl _⟩
  | fromDisk hmemory hdisk hcontains =>
    have hsize := c.diskSize_dropDisk_le k
    exact ⟨rfl, rfl, Nat.le_refl _, Nat.add_le_add_right (Nat.add_le_add_left hsize _) _⟩

omit [DecidableEq K] in
theorem quiet_close (c : Overflow K V) (w : World) : Quiet c (c.close w).state 0 := by
  rw [close_state]
  refine .of_le rfl ?_
  unfold diskSize
  cases c.disk <;> exact Nat.zero_le _

def Op.lookups : Op K V → Nat
  | .request r => r.lookups
  | _ => 0

theorem Sound.quiet_perform (hc : c.Sound) (w : World) (op : Op K V) :
    Quiet c (c.perform w op).state op.lookups := by
  have hpurge := (purgeExpired_sinks hc w).quiet hc
  cases op with
  | request r =>
    cases r with
    | insert k value => exact hc.quiet_insert w k value
    | remove k => exact hc.quiet_remove w k
    | get k => exact hc.quiet_get w k
    | contains k => exact .of_le rfl (Nat.le_refl _)
    | keys => exact hpurge
    | size => exact hpurge
  | purgeExpired => exact hpurge
  | close => exact c.quiet_close w
  | outside change => exact .of_le rfl (Nat.le_refl _)

/-- An operation counts what it tells. -/
theorem Sound.tell_perform (hc : c.Sound) (w : World) (op : Op K V) :
    Books.Tell c.books (c.perform w op).state.books (c.perform w op).log op.lookups := by
  obtain ⟨ms, haccount, -⟩ := hc.perform_account w op
  obtain ⟨hremoved, hexpired, hreclaimed, hcrowded⟩ := toldFor_eventsOf ms
  have hquiet := hc.quiet_perform w op
  rw [← haccount.log_eq] at hremoved hexpired hreclaimed hcrowded
  have hremovals := haccount.counted .removals
  have hcapacity := haccount.counted .capacity
  have hlive := haccount.counted .timeToLive
  have hidle := haccount.counted .timeToIdle
  have hfailures := haccount.counted .writeFailures
  simp only [Counter.reading] at hremovals hcapacity hlive hidle hfailures
  refine ⟨?_, ?_, ?_, ?_, hquiet.lookedUp, hquiet.diskHits, hquiet.drained⟩
  · rw [hremoved]
    exact hremovals
  · rw [hexpired]
    dsimp only [books]
    omega
  · rw [hreclaimed]
    exact hquiet.reclaimed
  · rw [hcrowded]
    dsimp only [books]
    omega

end

end CacheLayer.Overflow
