import CacheLayer.Proofs.Overflow.Presence

/-!
# A closed cache is a cache of memory alone

Closing a cache over disk leaves its disk tier in place, without a directory. Every entry that leaves
memory is still offered to that tier, which cannot write it, and so the entry is dropped as it would be
without a tier. A closed cache is a `Shell` around a cache of memory alone: its own names, the empty
tier and what was counted before. Every operation does to the shell what it does to what is inside.

* `Shell.around` : the closed cache around a cache of memory alone.
* `Shell.Wraps` : two operations agree, the first on the shell and the second on what is inside.
* `Shell.wraps_perform` : all operations do; the lemmas before go through the functions one by one.
* `closed_like_new` : after closing, a cache goes on as a new one of memory alone.
-/

namespace CacheLayer

variable {K : Type u} {V : Type v}

/-- The counters after `m` when `n` was counted from then on by a cache without a disk tier. What that
cache drops for want of room counts as a failure of the disk. -/
def Metrics.andThen (m n : Metrics) : Metrics where
  hits := m.hits + n.hits
  misses := m.misses + n.misses
  inserts := m.inserts + n.inserts
  removals := m.removals + n.removals
  evictedByCapacity := m.evictedByCapacity
  evictedByTtl := m.evictedByTtl + n.evictedByTtl
  evictedByTti := m.evictedByTti + n.evictedByTti
  reclaimed := m.reclaimed + n.reclaimed
  spilledToDisk := m.spilledToDisk + n.spilledToDisk
  diskHits := m.diskHits + n.diskHits
  diskWriteFailures := m.diskWriteFailures + n.evictedByCapacity
  started := m.started

theorem Metrics.andThen_startedAt (m : Metrics) (now : Nat) : m.andThen (.startedAt now) = m := rfl

theorem Metrics.andThen_expired (m n : Metrics) (x : Expiration) :
    m.andThen (n.expired x) = (m.andThen n).expired x := by
  cases x <;> rfl

theorem Metrics.diskWriteFailures_expired (m : Metrics) (x : Expiration) :
    (m.expired x).diskWriteFailures = m.diskWriteFailures := by
  cases x <;> rfl

def DiskTier.shut (bound : Bound) (nextFileId : Nat) : DiskTier K :=
  ⟨none, .empty, .empty, bound, nextFileId⟩

namespace Overflow

/-- What a closed cache has of its own. -/
structure Shell where
  name : String
  persistence : Persistence
  /-- The bound of the disk tier. -/
  bound : Bound
  /-- What was counted before. -/
  counted : Metrics

/-- The closed cache around a cache of memory alone, when so many files were numbered. -/
def Shell.around (h : Shell) (files : Nat) (d : Overflow K V) : Overflow K V :=
  { d with
    settings := { d.settings with name := h.name, persistence := h.persistence }
    disk := some (.shut h.bound files)
    metrics := h.counted.andThen d.metrics }

/-- There is no disk tier, and so none that failed. -/
structure MemoryOnly (d : Overflow K V) : Prop where
  disk : d.disk = none
  noFailures : d.metrics.diskWriteFailures = 0

/-- Two operations end at the same time with the same answer, and tell the same; the first ends in a
shell around the second. -/
structure Shell.Wraps (h : Shell) {ε : Type w} {α : Type x} (s s' : Step (Overflow K V) ε α) :
    Prop where
  answer : s.answer = s'.answer
  log : s.log = s'.log
  now : s.world.now = s'.world.now
  state : ∃ files, s.state = h.around files s'.state
  memoryOnly : s'.state.MemoryOnly

namespace Shell

variable {h : Shell} {d : Overflow K V} {w w' : World} {ε : Type w} {α : Type x} {β : Type y}

theorem wraps_pure (hd : d.MemoryOnly) (hnow : w.now = w'.now) (files : Nat) (a : α) :
    h.Wraps (.pure a (h.around files d) w : Step _ ε _) (.pure a d w') :=
  ⟨rfl, rfl, hnow, ⟨files, rfl⟩, hd⟩

theorem Wraps.mapAnswer {s s' : Step (Overflow K V) ε α} (hs : h.Wraps s s') (f : α → β) :
    h.Wraps (s.mapAnswer f) (s'.mapAnswer f) :=
  ⟨congrArg f hs.answer, hs.log, hs.now, hs.state, hs.memoryOnly⟩

theorem Wraps.mapState {s s' : Step (Overflow K V) ε α} (hs : h.Wraps s s')
    {f : Overflow K V → Overflow K V} (hf : ∀ files d, f (h.around files d) = h.around files (f d))
    (hmemory : ∀ d : Overflow K V, d.MemoryOnly → (f d).MemoryOnly) :
    h.Wraps (s.mapState f) (s'.mapState f) := by
  obtain ⟨files, hstate⟩ := hs.state
  exact ⟨hs.answer, hs.log, hs.now, ⟨files, (congrArg f hstate).trans (hf files _)⟩,
    hmemory _ hs.memoryOnly⟩

theorem Wraps.bind {s s' : Step (Overflow K V) ε α} (hs : h.Wraps s s')
    {f g : α → Overflow K V → World → Step (Overflow K V) ε β}
    (hf : ∀ a files d w w', d.MemoryOnly → w.now = w'.now →
      h.Wraps (f a (h.around files d) w) (g a d w')) :
    h.Wraps (s.bind f) (s'.bind g) := by
  obtain ⟨files, hstate⟩ := hs.state
  have hnext := hf s'.answer files s'.state s.world s'.world hs.memoryOnly hs.now
  rw [← hstate, ← hs.answer] at hnext
  unfold Step.bind
  rw [← hs.answer]
  exact ⟨hnext.answer, congrArg₂ (· ++ ·) hs.log hnext.log, hnext.now, hnext.state,
    hnext.memoryOnly⟩

variable [DecidableEq K]

/-! ## Leaving memory -/

omit [DecidableEq K] in
theorem entries_around (files : Nat) : (h.around files d).entries = d.entries := rfl

omit [DecidableEq K] in
theorem codec_around (files : Nat) :
    (h.around files d).settings.codec = d.settings.codec := rfl

omit [DecidableEq K] in
theorem expiration_around (hnow : w.now = w'.now) (files : Nat) (e : Entry V) :
    (h.around files d).expiration w e = d.expiration w' e := by
  unfold expiration
  rw [hnow]
  rfl

omit [DecidableEq K] in
theorem around_expired (files : Nat) (x : Expiration) :
    { h.around files d with metrics := (h.around files d).metrics.expired x } =
      h.around files { d with metrics := d.metrics.expired x } := by
  unfold around
  rw [Metrics.andThen_expired]

omit [DecidableEq K] in
theorem memoryOnly_expired (hd : d.MemoryOnly) (x : Expiration) :
    MemoryOnly { d with metrics := d.metrics.expired x } :=
  ⟨hd.disk, (d.metrics.diskWriteFailures_expired x).trans hd.noFailures⟩

/-- An entry that leaves memory is dropped, with or without a closed tier. -/
theorem wraps_spill (hd : d.MemoryOnly) (hnow : w.now = w'.now) (files : Nat) (k : K) (e : Entry V) :
    h.Wraps ((h.around files d).spill w k e) (d.spill w' k e) := by
  let dropped : Overflow K V := { d with keyIndex := d.keyIndex.erase k }
  have hdropped : dropped.MemoryOnly := ⟨hd.disk, hd.noFailures⟩
  unfold spill
  rw [expiration_around hnow]
  cases d.expiration w' e with
  | some x =>
    exact ⟨rfl, rfl, hnow, ⟨files, around_expired (d := dropped) files x⟩, memoryOnly_expired hdropped x⟩
  | none =>
    simp only [hd.disk]
    rw [codec_around]
    cases d.settings.codec.encode e.value.value with
    | error fault => exact ⟨rfl, rfl, hnow, ⟨files, rfl⟩, rfl, hd.noFailures⟩
    | ok bytes => exact ⟨rfl, rfl, hnow, ⟨files + 1, rfl⟩, rfl, hd.noFailures⟩

theorem wraps_spillAll (ks : List K) (hd : d.MemoryOnly) (hnow : w.now = w'.now) (files : Nat) :
    h.Wraps ((h.around files d).spillAll w ks) (d.spillAll w' ks) := by
  induction ks generalizing d w w' files with
  | nil => exact wraps_pure hd hnow files ()
  | cons k ks ih =>
    unfold spillAll
    rw [entries_around]
    cases d.entries.get? k with
    | none => exact ih hd hnow files
    | some e =>
      have hdropped : MemoryOnly { d with entries := d.entries.erase k } := ⟨hd.disk, hd.noFailures⟩
      exact (wraps_spill hdropped hnow files k e).bind fun _ files _ _ _ hd hnow => ih hd hnow files

theorem wraps_takeIn (hd : d.MemoryOnly) (hnow : w.now = w'.now) (files : Nat) (k : K)
    (e : Entry V) : h.Wraps ((h.around files d).takeIn w k e) (d.takeIn w' k e) :=
  wraps_spillAll (d := { d with
    order := (Recency.trim d.settings.memoryBound.exceededBy (d.order.pushFront k e.weight).size
      (d.order.pushFront k e.weight)).1
    entries := d.entries.insert k e
    keyIndex := d.keyIndex.insert k () }) _ ⟨hd.disk, hd.noFailures⟩ hnow files

/-! ## Looking up -/

theorem wraps_expireMemory (hd : d.MemoryOnly) (hnow : w.now = w'.now) (files : Nat) (k : K) :
    h.Wraps ((h.around files d).expireMemory w k) (d.expireMemory w' k) := by
  unfold expireMemory
  rw [entries_around]
  cases d.entries.get? k with
  | none => exact wraps_pure hd hnow files ()
  | some e =>
    let dropped : Overflow K V := { d with
      entries := d.entries.erase k, order := d.order.remove k, keyIndex := d.keyIndex.erase k }
    have hdropped : dropped.MemoryOnly := ⟨hd.disk, hd.noFailures⟩
    dsimp only
    rw [expiration_around hnow]
    cases d.expiration w' e with
    | some x =>
      exact ⟨rfl, rfl, hnow, ⟨files, around_expired (d := dropped) files x⟩,
        memoryOnly_expired hdropped x⟩
    | none => exact ⟨rfl, rfl, hnow, ⟨files, rfl⟩, hdropped⟩

theorem wraps_promote (hd : d.MemoryOnly) (hnow : w.now = w'.now) (files : Nat) (k : K) :
    h.Wraps ((h.around files d).promote w k) (d.promote w' k) := by
  unfold promote
  rw [hd.disk]
  exact wraps_pure hd hnow files none

theorem wraps_find (hd : d.MemoryOnly) (hnow : w.now = w'.now) (files : Nat) (k : K) :
    h.Wraps ((h.around files d).find w k) (d.find w' k) := by
  unfold find
  rw [entries_around]
  cases d.entries.get? k with
  | none => exact wraps_promote hd hnow files k
  | some e =>
    have htouched : (h.around files d).touched w e.stamps = d.touched w' e.stamps := by
      unfold touched
      rw [hnow]
      rfl
    dsimp only
    rw [expiration_around hnow, htouched]
    cases d.expiration w' e with
    | some x => exact (wraps_expireMemory hd hnow files k).mapAnswer fun _ => none
    | none => exact ⟨rfl, rfl, hnow, ⟨files, rfl⟩, hd.disk, hd.noFailures⟩

theorem wraps_get (hd : d.MemoryOnly) (hnow : w.now = w'.now) (files : Nat) (k : K) :
    h.Wraps ((h.around files d).get w k) (d.get w' k) := by
  have hfound := wraps_find (h := h) hd hnow files k
  unfold get
  dsimp only
  rw [hfound.answer]
  cases (d.find w' k).answer with
  | none => exact hfound.mapState (fun _ _ => rfl) fun d hd => ⟨hd.disk, hd.noFailures⟩
  | some value => exact hfound.mapState (fun _ _ => rfl) fun d hd => ⟨hd.disk, hd.noFailures⟩

/-! ## The operations -/

theorem insert_around (files : Nat) (k : K) (value : Shared V) :
    (h.around files d).insert w k value = ((h.around files (d.dropMemory k)).takeIn w k
      (d.freshEntry w value)).mapState countInsert := rfl

theorem insert_of_memoryOnly (hd : d.MemoryOnly) (k : K) (value : Shared V) :
    d.insert w k value =
      ((d.dropMemory k).takeIn w k (d.freshEntry w value)).mapState countInsert := by
  obtain ⟨settings, entries, order, disk, keyIndex, metrics⟩ := d
  obtain rfl : disk = none := hd.disk
  rfl

theorem wraps_insert (hd : d.MemoryOnly) (hnow : w.now = w'.now) (files : Nat) (k : K)
    (value : Shared V) : h.Wraps ((h.around files d).insert w k value) (d.insert w' k value) := by
  have hfresh : d.freshEntry w value = d.freshEntry w' value := by
    unfold freshEntry
    rw [hnow]
  rw [insert_around, insert_of_memoryOnly hd, hfresh]
  exact (wraps_takeIn (d := d.dropMemory k) ⟨hd.disk, hd.noFailures⟩ hnow files k _).mapState
    (fun _ _ => rfl) fun d hd => ⟨hd.disk, hd.noFailures⟩

theorem wraps_remove (hd : d.MemoryOnly) (hnow : w.now = w'.now) (files : Nat) (k : K) :
    h.Wraps ((h.around files d).remove w k) (d.remove w' k) := by
  let forgotten : Overflow K V := { d with keyIndex := d.keyIndex.erase k }
  have hforgotten : forgotten.MemoryOnly := ⟨hd.disk, hd.noFailures⟩
  unfold remove
  dsimp only
  rw [hd.disk, entries_around]
  cases d.entries.get? k with
  | some e =>
    let dropped : Overflow K V :=
      { forgotten with entries := d.entries.erase k, order := d.order.remove k, disk := none }
    have hdropped : dropped.MemoryOnly := ⟨rfl, hd.noFailures⟩
    -- when it expires is told by the settings alone, which are the same inside
    unfold Overflow.expiration around
    rw [hnow]
    dsimp only
    cases e.stamps.expiration w'.now d.settings.timeToIdle with
    | some x =>
      exact ⟨rfl, rfl, hnow, ⟨files, around_expired (d := dropped) files x⟩,
        memoryOnly_expired hdropped x⟩
    | none => exact ⟨rfl, rfl, hnow, ⟨files, rfl⟩, rfl, hd.noFailures⟩
  | none =>
    exact wraps_pure (h := h) (d := { forgotten with disk := none }) ⟨rfl, hd.noFailures⟩ hnow files
      false

theorem wraps_expireAllMemory (ks : List K) (hd : d.MemoryOnly) (hnow : w.now = w'.now)
    (files : Nat) : h.Wraps ((h.around files d).expireAllMemory w ks) (d.expireAllMemory w' ks) := by
  induction ks generalizing d w w' files with
  | nil => exact wraps_pure hd hnow files ()
  | cons k ks ih =>
    exact (wraps_expireMemory hd hnow files k).bind fun _ files _ _ _ hd hnow => ih hd hnow files

theorem wraps_purgeExpired (hd : d.MemoryOnly) (hnow : w.now = w'.now) (files : Nat) :
    h.Wraps ((h.around files d).purgeExpired w) (d.purgeExpired w') := by
  have hexpired : (d.entries.entries.filterMap fun e => ((h.around files d).expiration w e.2).map
      fun _ => e.1) = d.entries.entries.filterMap fun e => (d.expiration w' e.2).map fun _ => e.1 :=
    congrArg (d.entries.entries.filterMap ·) (funext fun e => by rw [expiration_around hnow])
  unfold purgeExpired
  show h.Wraps (if d.timeless then _ else _) _
  split
  · exact wraps_pure hd hnow files ()
  · show h.Wraps (((h.around files d).expireAllMemory w (d.entries.entries.filterMap _)).bind _) _
    rw [hexpired]
    refine (wraps_expireAllMemory _ hd hnow files).bind fun _ files d w w' hd hnow => ?_
    rw [hd.disk]
    exact wraps_pure hd hnow files ()

theorem wraps_afterPurge (hd : d.MemoryOnly) (hnow : w.now = w'.now) (files : Nat)
    (read : Table K Unit → α) :
    h.Wraps (((h.around files d).purgeExpired w).mapAnswer fun _ =>
        read ((h.around files d).purgeExpired w).state.keyIndex)
      ((d.purgeExpired w').mapAnswer fun _ => read (d.purgeExpired w').state.keyIndex) := by
  have hpurged := wraps_purgeExpired (h := h) hd hnow files
  obtain ⟨files', hstate⟩ := hpurged.state
  have hindex : ((h.around files d).purgeExpired w).state.keyIndex =
      (d.purgeExpired w').state.keyIndex := by
    rw [hstate]
    rfl
  rw [hindex]
  exact hpurged.mapAnswer _

theorem contains_around (hd : d.MemoryOnly) (hnow : w.now = w'.now) (files : Nat) (k : K) :
    (h.around files d).contains w k = d.contains w' k := by
  unfold contains
  rw [hd.disk, show (h.around files d).keyIndex = d.keyIndex from rfl,
    show (h.around files d).timeless = d.timeless from rfl,
    entries_around]
  cases d.entries.get? k with
  | some e =>
    dsimp only
    rw [expiration_around hnow]
  | none => rfl

omit [DecidableEq K] in
theorem wraps_close (hd : d.MemoryOnly) (hnow : w.now = w'.now) (files : Nat) :
    h.Wraps ((h.around files d).close w) (d.close w') := by
  unfold close
  rw [hd.disk]
  exact ⟨rfl, rfl, hnow, ⟨files, rfl⟩, rfl, hd.noFailures⟩

theorem wraps_serve (hd : d.MemoryOnly) (hnow : w.now = w'.now) (files : Nat)
    (r : MapRequest K (Shared V)) : h.Wraps ((h.around files d).serve w r) (d.serve w' r) := by
  cases r with
  | insert k value => exact (wraps_insert hd hnow files k value).mapAnswer fun _ => MapReply.done
  | remove k => exact (wraps_remove hd hnow files k).mapAnswer _
  | get k => exact (wraps_get hd hnow files k).mapAnswer _
  | contains k =>
    show h.Wraps (.pure (MapReply.truth ((h.around files d).contains w k)) _ _) _
    rw [contains_around hd hnow]
    exact wraps_pure hd hnow files _
  | keys => exact (wraps_afterPurge hd hnow files Table.keys).mapAnswer _
  | size => exact (wraps_afterPurge hd hnow files Table.size).mapAnswer _

theorem wraps_perform (hd : d.MemoryOnly) (hnow : w.now = w'.now) (files : Nat) (op : Op K V) :
    h.Wraps ((h.around files d).perform w op) (d.perform w' op) := by
  cases op with
  | request r => exact wraps_serve hd hnow files r
  | purgeExpired => exact (wraps_purgeExpired hd hnow files).mapAnswer fun _ => MapReply.done
  | close => exact (wraps_close hd hnow files).mapAnswer fun _ => MapReply.done
  | outside change => exact ⟨rfl, rfl, hnow, ⟨files, rfl⟩, hd⟩

theorem wraps_run (hd : d.MemoryOnly) (hnow : w.now = w'.now) (files : Nat)
    (turns : List (Turn K V)) : h.Wraps ((h.around files d).run w turns) (d.run w' turns) := by
  induction turns generalizing d w w' files with
  | nil => exact wraps_pure hd hnow files ()
  | cons turn turns ih =>
    have hwait : (w.advance turn.wait).now = (w'.advance turn.wait).now :=
      congrArg (· + turn.wait) hnow
    have hfirst := wraps_perform (h := h) hd hwait files turn.op
    obtain ⟨files', hstate⟩ := hfirst.state
    have hrest := ih hfirst.memoryOnly hfirst.now files'
    rw [← hstate] at hrest
    refine ⟨hrest.answer, ?_, hrest.now, hrest.state, hrest.memoryOnly⟩
    show (_ :: _ : List (Record K V)) = _ :: _
    rw [hrest.log, hwait, hfirst.answer, hfirst.log]

end Shell

/-! ## After closing -/

/-- A cache after a run and after it was closed then. -/
def closedAfter [DecidableEq K] (c : Overflow K V) (w : World) (turns : List (Turn K V)) :
    Step (Overflow K V) (Eviction K V) Unit :=
  (c.run w turns).state.close (c.run w turns).world

def shellOf (c : Overflow K V) (t : DiskTier K) : Shell :=
  ⟨c.settings.name, c.settings.persistence, t.bound, c.metrics⟩

/-- A cache that was just closed is the shell around a new one, with the same options otherwise. -/
theorem close_eq_around {c : Overflow K V} {t : DiskTier K} (hdisk : c.disk = some t)
    {settings : OverflowSettings V}
    (hsettings : c.settings =
      { settings with name := c.settings.name, persistence := c.settings.persistence })
    (now : Nat) (w : World) :
    (c.close w).state = (c.shellOf t).around t.nextFileId (.make settings none now) := by
  rw [close_state, hdisk]
  unfold Shell.around shellOf make
  rw [Metrics.andThen_startedAt]
  exact congrArg (fun settings : OverflowSettings V => (⟨settings, .empty, .empty,
    some (.shut t.bound t.nextFileId), .empty, c.metrics⟩ : Overflow K V)) hsettings

/-- From any state on a cache over disk that is closed goes on as a cache of memory alone that is made
at that moment with the same memory bound and timeouts: it replies and tells the same for ever, nothing
is on disk any more, and it counts the same, except that it counts a failure of the disk where the other
counts an entry dropped for want of room. -/
theorem closed_like_new [DecidableEq K] (b b' : Builder) (st : Storage K V)
    {w₁ w₂ w₁' w₂' : World} {c d : Overflow K V}
    (hbuilt : b.buildOverflow st w₁ = (.ok c, w₁'))
    (hpersistence : b.config.persistence = .swapOnOverflow) (turns : List (Turn K V))
    (hbuilt' : b'.buildOverflow st w₂ = (.ok d, w₂'))
    (hpersistence' : b'.config.persistence = .none)
    (hbound : b'.config.memoryBound = b.config.memoryBound)
    (hlive : b'.config.timeToLive = b.config.timeToLive)
    (hidle : b'.config.timeToIdle = b.config.timeToIdle)
    (hnow : w₂.now = (c.run w₁' turns).world.now) (later : List (Turn K V)) :
    ((c.closedAfter w₁' turns).state.run (c.closedAfter w₁' turns).world later).log =
      (d.run w₂' later).log ∧
    ((c.closedAfter w₁' turns).state.run (c.closedAfter w₁' turns).world later).state.diskSize = 0 ∧
    ((c.closedAfter w₁' turns).state.run
      (c.closedAfter w₁' turns).world later).state.diskSizeBytes = 0 ∧
    ((c.closedAfter w₁' turns).state.run (c.closedAfter w₁' turns).world later).state.metrics =
      (c.closedAfter w₁' turns).state.metrics.andThen (d.run w₂' later).state.metrics ∧
    (d.run w₂' later).state.metrics.diskWriteFailures = 0 := by
  have hsame := sameSetup_run (w := w₁') turns (Builder.built hbuilt).sound
  have hsettings := hsame.settings.trans (Builder.built hbuilt).setup.1
  obtain ⟨t, ht⟩ : ∃ t, (c.run w₁' turns).state.disk = some t := by
    have hbounds := hsame.bound
    rcases Builder.buildOverflow_cases hbuilt with ⟨hnone, -, -⟩ | ⟨-, t₀, area, -, rfl, -⟩
    · cases hpersistence.symm.trans hnone
    · obtain ⟨t, ht, -⟩ := Option.map_eq_some_iff.1 hbounds
      exact ⟨t, ht⟩
  obtain ⟨rfl, rfl⟩ : d = .make (b'.overflowSettings st) none w₂.now ∧ w₂ = w₂' := by
    rcases Builder.buildOverflow_cases hbuilt' with ⟨-, hd, hw⟩ | ⟨hswap, -⟩
    · exact ⟨hd, hw.symm⟩
    · cases hpersistence'.symm.trans hswap
  have hoptions : (c.run w₁' turns).state.settings = { b'.overflowSettings st with
      name := (c.run w₁' turns).state.settings.name
      persistence := (c.run w₁' turns).state.settings.persistence } := by
    rw [hsettings]
    unfold Builder.overflowSettings
    rw [hbound, hlive, hidle]
  -- closing leaves the new cache inside a shell of the old one, where every later step keeps it
  have hclosed := close_eq_around ht hoptions w₂.now (c.run w₁' turns).world
  have hmoment : (c.closedAfter w₁' turns).world.now = w₂.now :=
    (around_close _ _).now.trans hnow.symm
  have hwraps := Shell.wraps_run (h := (c.run w₁' turns).state.shellOf t)
    (d := .make (b'.overflowSettings st) none w₂.now) ⟨rfl, rfl⟩ hmoment t.nextFileId later
  rw [← hclosed] at hwraps
  obtain ⟨files, hstate⟩ := hwraps.state
  refine ⟨hwraps.log, ?_, ?_, ?_, hwraps.memoryOnly.noFailures⟩
  · exact (congrArg diskSize hstate).trans rfl
  · exact (congrArg diskSizeBytes hstate).trans rfl
  · refine (congrArg Overflow.metrics hstate).trans ?_
    unfold closedAfter
    rw [hclosed]
    rfl

/-- The options of the smallest cache over disk, without the disk. -/
def aloneBuilder : Builder :=
  { pairBuilder (some ⟨100⟩) none with
    config := { memoryBound := .entries 1, timeToLive := some ⟨100⟩ } }

def laterWorld : World := bareWorld.advance 7

theorem alone_built : aloneBuilder.buildOverflow byteStorage laterWorld =
    (.ok (.make (aloneBuilder.overflowSettings byteStorage) none 7), laterWorld) := rfl

/-- A key that was on disk when the cache was closed is stored again and pushed out, and what pushes it
out expires. -/
theorem closed_like_new_pair :
    let closed := (pairCache (some ⟨100⟩) none).closedAfter pairWorld
      [⟨0, .request (.insert 1 ⟨0, 7⟩)⟩, ⟨7, .request (.insert 2 ⟨1, 8⟩)⟩]
    let after := closed.state.run closed.world
      [⟨0, .request (.get 1)⟩, ⟨0, .request (.insert 1 ⟨2, 9⟩)⟩, ⟨1, .request (.insert 2 ⟨3, 8⟩)⟩,
        ⟨0, .request (.get 1)⟩, ⟨100, .request .keys⟩, ⟨0, .close⟩]
    let new := (Overflow.make (aloneBuilder.overflowSettings byteStorage) none 7).run laterWorld
      [⟨0, .request (.get 1)⟩, ⟨0, .request (.insert 1 ⟨2, 9⟩)⟩, ⟨1, .request (.insert 2 ⟨3, 8⟩)⟩,
        ⟨0, .request (.get 1)⟩, ⟨100, .request .keys⟩, ⟨0, .close⟩]
    after.log = new.log ∧ after.state.diskSize = 0 ∧ after.state.diskSizeBytes = 0 ∧
      after.state.metrics = closed.state.metrics.andThen new.state.metrics ∧
      new.state.metrics.diskWriteFailures = 0 :=
  closed_like_new (pairBuilder (some ⟨100⟩) none) aloneBuilder byteStorage (pair_built _ _) rfl _
    alone_built rfl rfl rfl rfl rfl _

end Overflow

end CacheLayer
