import CacheLayer.Builder
import CacheLayer.Proofs.Overflow.Operations
import CacheLayer.Proofs.MapRequest

/-!
# Runs of a two-tier cache

A run starts from a cache that was just built and takes it through any operations, at any readings of
the clock, while others change the file area as they like.

* `built` : what building comes to.
* `Consistent` : how the five parts of a cache belong together, in terms of the keys they list.
* `consistent_run` : they do so after every run.
-/

namespace CacheLayer

variable {K : Type u} {V : Type v}

/-! ## The start -/

def Builder.overflowSettings (b : Builder) (st : Storage K V) : OverflowSettings V where
  name := b.name
  memoryBound := b.config.memoryBound
  persistence := b.config.persistence
  timeToLive := b.config.timeToLive
  timeToIdle := b.config.timeToIdle
  codec := st.codec
  footprint := st.footprint

inductive Overflow.Built (b : Builder) (st : Storage K V) (w : World) : Overflow K V → World → Prop
  | memoryOnly (hpersistence : b.config.persistence = .none) :
    Built b st w (.make (b.overflowSettings st) none w.now) w
  | overDisk {place : TierPlace} {area : FileArea}
    (hpersistence : b.config.persistence = .swapOnOverflow)
    (hplace : area.hasTier place.number = true) (hunwritable : area.unwritable = w.area.unwritable) :
    Built b st w (.make (b.overflowSettings st)
      (some ⟨some place, .empty, .empty, b.config.diskBound, 0⟩) w.now) { w with area }

/-- What opening a disk tier comes to: directories may be made, and an empty private one is, where the
path leads then. -/
inductive DiskTier.Opened (area : FileArea) (parent : Path) (name : String) (bound : Bound) :
    Option (DiskTier K) × FileArea → Prop
  | failed (directories : List Path) : Opened area parent name bound (none, { area with directories })
  | made {directories : List Path} {path : Path}
    (hpath : FileArea.reach { area with directories } parent = some path) :
    Opened area parent name bound
      (some ⟨some ⟨area.nextTier, parent, stemOf name⟩, .empty, .empty, bound, 0⟩,
        { area with
          directories
          tiers := area.tiers.insert area.nextTier ⟨path, stemOf name, .empty⟩
          nextTier := area.nextTier + 1 })

theorem DiskTier.opened (area : FileArea) (parent : Path) (name : String) (bound : Bound) :
    Opened (K := K) area parent name bound (DiskTier.open? area parent name bound) := by
  obtain ⟨directories, hmade⟩ := FileArea.makeFirst_eq parent.withAbove area
  have hparents : (area.makeAll parent).2 = { area with directories } := hmade
  unfold DiskTier.open?
  split
  · rename_i area' hfailed
    rw [hfailed] at hparents
    rw [show area' = { area with directories } from hparents]
    exact .failed directories
  · rename_i area' hparent
    rw [hparent] at hparents
    obtain rfl : area' = { area with directories } := hparents
    split
    · exact .failed directories
    · rename_i number area' htier
      unfold FileArea.makeTier at htier
      split at htier
      · cases htier
      · obtain ⟨path, hpath, hmade⟩ := Option.map_eq_some_iff.1 htier
        obtain ⟨rfl, rfl⟩ := Prod.mk.inj hmade
        exact .made hpath

theorem Builder.buildOverflow_cases {b : Builder} {st : Storage K V} {w w' : World}
    {c : Overflow K V} (h : b.buildOverflow st w = (.ok c, w')) :
    (b.config.persistence = .none ∧ c = .make (b.overflowSettings st) none w.now ∧ w' = w) ∨
    (b.config.persistence = .swapOnOverflow ∧ ∃ t area,
      DiskTier.open? w.area (Path.ofText b.directory) b.name b.config.diskBound = (some t, area) ∧
        c = .make (b.overflowSettings st) (some t) w.now ∧ w' = { w with area }) := by
  unfold Builder.buildOverflow at h
  split at h
  · cases h
  · dsimp only at h
    split at h
    · rename_i hpersistence
      obtain ⟨hc, rfl⟩ := Prod.mk.inj h
      exact .inl ⟨hpersistence, (Except.ok.inj hc).symm, rfl⟩
    · rename_i hpersistence
      split at h
      · cases h
      · rename_i t area hopen
        obtain ⟨hc, rfl⟩ := Prod.mk.inj h
        exact .inr ⟨hpersistence, t, area, hopen, (Except.ok.inj hc).symm, rfl⟩

theorem Builder.buildOverflow_of_opens {b : Builder} {st : Storage K V} {w : World} {t : DiskTier K}
    {area : FileArea} (hvalid : b.validate .diskOverflow = .ok ())
    (hpersistence : b.config.persistence = .swapOnOverflow)
    (hopen : DiskTier.open? w.area (Path.ofText b.directory) b.name b.config.diskBound =
      (some t, area)) : b.buildOverflow st w =
        (.ok (.make (b.overflowSettings st) (some t) w.now), { w with area }) := by
  unfold Builder.buildOverflow
  simp only [hvalid, hpersistence, hopen]
  rw [Builder.overflowSettings, hpersistence]

theorem Builder.built {b : Builder} {st : Storage K V} {w w' : World} {c : Overflow K V}
    (h : b.buildOverflow st w = (.ok c, w')) : Overflow.Built b st w c w' := by
  rcases Builder.buildOverflow_cases h with
    ⟨hpersistence, rfl, rfl⟩ | ⟨hpersistence, t, area, hopen, rfl, rfl⟩
  · exact .memoryOnly hpersistence
  · have hopened := DiskTier.opened (K := K) w.area (Path.ofText b.directory) b.name
      b.config.diskBound
    rw [hopen] at hopened
    cases hopened with
    | made hpath => exact .overDisk hpersistence (by simp [FileArea.hasTier]) rfl

/-! ## The smallest cache over disk -/

def byteStorage : Storage Nat UInt8 where
  codec :=
    { encode := fun v => .ok [v]
      decode := fun bytes =>
        match bytes with
        | v :: rest => .ok (v, rest)
        | [] => .error .endOfInput }
  footprint := 1
  hash := UInt64.ofNat

/-- The options of a cache of one entry in memory over one on disk. -/
def pairBuilder (timeToLive timeToIdle : Option Duration) : Builder :=
  .ofConfig "pair"
    { memoryBound := .entries 1, diskBound := .entries 1, persistence := .swapOnOverflow
      timeToLive, timeToIdle, diskDirectory := some "d" }

def bareWorld : World := ⟨0, 0, [], .ofFiles []⟩

/-- The world after the directory of a disk tier was made. -/
def pairWorld : World :=
  { bareWorld with
    area := { FileArea.ofFiles [] with
      directories := [["d"]]
      tiers := .insert .empty 0 ⟨["d"], "pair-", .empty⟩
      nextTier := 1 } }

def pairCache (timeToLive timeToIdle : Option Duration) : Overflow Nat UInt8 :=
  .make ((pairBuilder timeToLive timeToIdle).overflowSettings byteStorage)
    (some ⟨some ⟨0, ["d"], "pair-"⟩, .empty, .empty, .entries 1, 0⟩) 0

theorem faithful_byteStorage : byteStorage.codec.Faithful := by
  intro v bytes hencode
  rw [← Except.ok.inj hencode]
  rfl

theorem pair_opens {bound : Bound} : DiskTier.open? bareWorld.area (Path.ofText "d") "pair" bound =
    (some ⟨some ⟨0, ["d"], "pair-"⟩, (.empty : Table Nat DiskSlot), .empty, bound, 0⟩,
      pairWorld.area) := by
  have hpath : Path.ofText "d" = ["d"] := by
    rw [Path.ofText, String.splitOn, if_neg (by decide), String.splitOnAux, if_neg (by decide),
      if_neg (by decide), String.splitOnAux, if_pos (by decide)]
    rfl
  rw [hpath]
  rfl

theorem pair_built (timeToLive timeToIdle : Option Duration) :
    (pairBuilder timeToLive timeToIdle).buildOverflow byteStorage bareWorld =
      (.ok (pairCache timeToLive timeToIdle), pairWorld) :=
  Builder.buildOverflow_of_opens rfl rfl pair_opens

namespace Overflow

variable [DecidableEq K]

/-! ## Runs -/

inductive Op (K : Type u) (V : Type v) where
  | request (r : MapRequest K (Shared V))
  | purgeExpired
  | close
  /-- Somebody else changes the file area. -/
  | outside (change : FileArea → FileArea)

/-- What happens next, so many nanoseconds later. -/
structure Turn (K : Type u) (V : Type v) where
  wait : Nat
  op : Op K V

/-- What happened, when, and what came of it. -/
structure Record (K : Type u) (V : Type v) where
  now : Nat
  op : Op K V
  reply : MapReply K (Shared V)
  events : List (Eviction K V)

def serve (c : Overflow K V) (w : World) :
    MapRequest K (Shared V) → Step (Overflow K V) (Eviction K V) (MapReply K (Shared V))
  | .insert k value => (c.insert w k value).mapAnswer fun _ => .done
  | .remove k => (c.remove w k).mapAnswer .truth
  | .get k => (c.get w k).mapAnswer .value
  | .contains k => .pure (.truth (c.contains w k)) c w
  | .keys => (c.keys w).mapAnswer .keys
  | .size => (c.size w).mapAnswer .count

def perform (c : Overflow K V) (w : World) :
    Op K V → Step (Overflow K V) (Eviction K V) (MapReply K (Shared V))
  | .request r => c.serve w r
  | .purgeExpired => (c.purgeExpired w).mapAnswer fun _ => .done
  | .close => (c.close w).mapAnswer fun _ => .done
  | .outside change => .pure .done c { w with area := change w.area }

def run (c : Overflow K V) (w : World) :
    List (Turn K V) → Step (Overflow K V) (Record K V) Unit
  | [] => .pure () c w
  | turn :: turns =>
    let w := w.advance turn.wait
    let first := c.perform w turn.op
    let rest := first.state.run first.world turns
    { rest with log := ⟨w.now, turn.op, first.answer, first.log⟩ :: rest.log }

/-! ## Every operation keeps a cache in order -/

theorem Sound.perform {c : Overflow K V} (h : c.Sound) (w : World) (op : Op K V) :
    (c.perform w op).state.Sound := by
  cases op with
  | request r =>
    cases r with
    | insert k value => exact h.insert w k value
    | remove k => exact h.remove w k
    | get k => exact h.get w k
    | contains k => exact h
    | keys => exact h.purgeExpired w
    | size => exact h.purgeExpired w
  | purgeExpired => exact h.purgeExpired w
  | close => exact sound_close c w
  | outside change => exact h

theorem Fits.perform {c : Overflow K V} (hfits : c.Fits) (h : c.Sound) (w : World) (op : Op K V) :
    (c.perform w op).state.Fits := by
  cases op with
  | request r =>
    cases r with
    | insert k value => exact hfits.insert h w k value
    | remove k => exact hfits.remove h w k
    | get k => exact hfits.get h w k
    | contains k => exact hfits
    | keys => exact hfits.purgeExpired h w
    | size => exact hfits.purgeExpired h w
  | purgeExpired => exact hfits.purgeExpired h w
  | close => exact fits_close c w
  | outside change => exact hfits

theorem Sound.sameSetup_perform {c : Overflow K V} (h : c.Sound) (w : World) (op : Op K V) :
    SameSetup c (c.perform w op).state := by
  cases op with
  | request r =>
    cases r with
    | insert k value => exact h.sameSetup_insert w k value
    | remove k => exact h.sameSetup_remove w k
    | get k => exact h.sameSetup_get w k
    | contains k => exact .refl c
    | keys => exact (purgeExpired_sinks h w).sameSetup h
    | size => exact (purgeExpired_sinks h w).sameSetup h
  | purgeExpired => exact (purgeExpired_sinks h w).sameSetup h
  | close => exact sameSetup_close c w
  | outside change => exact .refl c

/-- What a step keeps of a sound cache, a run keeps: `Q` is what the operations have in common, and
`P` speaks of what was recorded so far. -/
theorem run_keeps {P : Overflow K V → World → List (Record K V) → Prop} {Q : Op K V → Prop}
    (hstep : ∀ c w log op, c.Sound → Q op → P c w log →
      P (c.perform w op).state (c.perform w op).world
        (log ++ [⟨w.now, op, (c.perform w op).answer, (c.perform w op).log⟩]))
    (hwait : ∀ c w log wait, P c w log → P c (w.advance wait) log) (turns : List (Turn K V))
    (hturns : ∀ turn ∈ turns, Q turn.op) (log : List (Record K V)) {c : Overflow K V} {w : World}
    (hc : c.Sound) (h : P c w log) :
    P (c.run w turns).state (c.run w turns).world (log ++ (c.run w turns).log) := by
  induction turns generalizing c w log with
  | nil =>
    show P c w (log ++ [])
    rwa [List.append_nil]
  | cons turn turns ih =>
    have hfirst := hstep c (w.advance turn.wait) log turn.op hc (hturns turn (by simp))
      (hwait c w log turn.wait h)
    have hnext := ih (fun later hlater => hturns later (by simp [hlater])) _
      (hc.perform (w.advance turn.wait) turn.op) hfirst
    rwa [List.append_assoc] at hnext

/-! ## Consistency -/

def diskKeys (c : Overflow K V) : List K :=
  match c.disk with
  | none => []
  | some t => t.slots.keys

/-- The five parts of a cache belong together, and both tiers are within the bounds. -/
structure Consistent (memoryBound diskBound : Bound) (c : Overflow K V) : Prop where
  /-- The memory tier has entries for the keys of its list. -/
  memoryKeys : c.entries.keys.Perm c.order.keys
  /-- The disk tier has slots for the keys of its list. -/
  diskKeys : ∀ t, c.disk = some t → t.slots.keys.Perm t.order.keys
  /-- No key is in both tiers. -/
  apart : c.entries.keys.Disjoint c.diskKeys
  /-- The index lists the keys of both tiers. -/
  index : c.keyIndex.keys.Perm (c.entries.keys ++ c.diskKeys)
  /-- The memory tier lists the weights of its entries. -/
  weights : ∀ k, c.order.weight? k = (c.entries.get? k).map Entry.weight
  memoryTotal : c.order.total = (c.order.items.map Prod.snd).sum
  diskTotal : ∀ t, c.disk = some t → t.order.total = (t.order.items.map Prod.snd).sum
  memoryFits : memoryBound.exceededBy c.order = false
  diskFits : ∀ t, c.disk = some t → diskBound.exceededBy t.order = false

theorem mem_diskKeys (c : Overflow K V) (k : K) : k ∈ c.diskKeys ↔ c.onDisk k = true := by
  unfold Overflow.diskKeys onDisk
  cases c.disk with
  | none => simp
  | some t => exact t.slots.mem_keys k

omit [DecidableEq K] in
theorem nodup_diskKeys (c : Overflow K V) : c.diskKeys.Nodup := by
  unfold Overflow.diskKeys
  cases c.disk with
  | none => exact List.nodup_nil
  | some t => exact t.slots.nodup_keys

theorem Sound.consistent {c : Overflow K V} (h : c.Sound) (hfits : c.Fits) {diskBound : Bound}
    (hbound : ∀ t, c.disk = some t → t.bound = diskBound) :
    c.Consistent c.settings.memoryBound diskBound := by
  have hapart : c.entries.keys.Disjoint c.diskKeys := by
    intro k hmemory hdisk
    rw [Table.mem_keys] at hmemory
    rw [mem_diskKeys, h.apart k hmemory] at hdisk
    cases hdisk
  have hboth : (c.entries.keys ++ c.diskKeys).Nodup :=
    List.nodup_append'.2 ⟨c.entries.nodup_keys, c.nodup_diskKeys, hapart⟩
  refine ⟨?_, fun t ht => ?_, hapart, ?_, h.weights, ?_, fun t ht => ?_, hfits.memory,
    fun t ht => ?_⟩
  · exact Table.keys_perm h.order.nodup_keys fun k => (h.mem_order k).symm
  · exact Table.keys_perm (h.disk t ht).order.nodup_keys fun k => (h.disk t ht).keys k
  · refine Table.keys_perm hboth fun k => ?_
    rw [List.mem_append, Table.mem_keys, mem_diskKeys, h.index, Bool.or_eq_true]
    rfl
  · exact h.order.total_eq
  · exact (h.disk t ht).order.total_eq
  · rw [← hbound t ht]
    exact hfits.disk t ht

theorem Built.sound {b : Builder} {st : Storage K V} {w w' : World} {c : Overflow K V}
    (h : Built b st w c w') : c.Sound := by
  cases h with
  | memoryOnly hpersistence => exact sound_make _ _ _ nofun
  | overDisk hpersistence hplace hunwritable =>
    refine sound_make _ _ _ fun t ht => ?_
    rw [← Option.some.inj ht]
    exact ⟨DiskTier.sound_empty _ _ _, fun k => rfl⟩

omit [DecidableEq K] in
theorem Built.setup {b : Builder} {st : Storage K V} {w w' : World} {c : Overflow K V}
    (h : Built b st w c w') : c.settings = b.overflowSettings st ∧
      ∀ bound, c.disk.map DiskTier.bound = some bound → bound = b.config.diskBound := by
  cases h with
  | memoryOnly hpersistence => exact ⟨rfl, nofun⟩
  | overDisk hpersistence hplace hunwritable =>
    exact ⟨rfl, fun bound hbound => (Option.some.inj hbound).symm⟩

omit [DecidableEq K] in
theorem Built.fits {b : Builder} {st : Storage K V} {w w' : World} {c : Overflow K V}
    (h : Built b st w c w') : c.Fits := by
  cases h with
  | memoryOnly hpersistence => exact fits_make _ _ _ nofun
  | overDisk hpersistence hplace hunwritable =>
    refine fits_make _ _ _ fun t ht => ?_
    rw [← Option.some.inj ht]
    exact ⟨rfl, Recency.sound_empty⟩

theorem sound_run (turns : List (Turn K V)) {c : Overflow K V} {w : World} (h : c.Sound) :
    (c.run w turns).state.Sound :=
  run_keeps (P := fun c _ _ => c.Sound) (Q := fun _ => True)
    (fun _ w _ op h _ _ => h.perform w op) (fun _ _ _ _ h => h) turns (fun _ _ => trivial) [] h h

theorem fits_run (turns : List (Turn K V)) {c : Overflow K V} {w : World} (h : c.Sound)
    (hfits : c.Fits) : (c.run w turns).state.Fits :=
  run_keeps (P := fun c _ _ => c.Fits) (Q := fun _ => True)
    (fun _ w _ op h _ hfits => hfits.perform h w op) (fun _ _ _ _ h => h) turns
    (fun _ _ => trivial) [] h hfits

theorem sameSetup_run (turns : List (Turn K V)) {c : Overflow K V} {w : World} (h : c.Sound) :
    SameSetup c (c.run w turns).state :=
  run_keeps (P := fun c' _ _ => SameSetup c c') (Q := fun _ => True)
    (fun _ w _ op h _ hsame => hsame.trans (h.sameSetup_perform w op)) (fun _ _ _ _ h => h) turns
    (fun _ _ => trivial) [] h (.refl c)

/-- Whatever is done to a cache that was built, whenever, and whatever others do to the file area, the
parts of the cache stay consistent and both tiers stay within their bounds. -/
theorem consistent_run (b : Builder) (st : Storage K V) {w w' : World} {c : Overflow K V}
    (hbuilt : b.buildOverflow st w = (.ok c, w')) (turns : List (Turn K V)) :
    (c.run w' turns).state.Consistent b.config.memoryBound b.config.diskBound := by
  have hstart := Builder.built hbuilt
  have hsame := sameSetup_run (w := w') turns hstart.sound
  have hbound : ∀ t, (c.run w' turns).state.disk = some t → t.bound = b.config.diskBound := by
    intro t ht
    refine hstart.setup.2 t.bound ?_
    rw [← hsame.bound, ht]
    rfl
  have hmemory : (c.run w' turns).state.settings.memoryBound = b.config.memoryBound := by
    rw [hsame.settings, hstart.setup.1]
    rfl
  rw [← hmemory]
  exact (sound_run turns hstart.sound).consistent (fits_run turns hstart.sound hstart.fits) hbound

/-- An entry is spilled, what is on disk is lost, and another entry is spilled. -/
theorem consistent_run_pair : ((pairCache none none).run pairWorld
    [⟨0, .request (.insert 1 ⟨0, 7⟩)⟩, ⟨0, .request (.insert 2 ⟨1, 8⟩)⟩,
      ⟨0, .outside fun a => a.deleteTier 0⟩, ⟨0, .request (.get 1)⟩,
      ⟨0, .request (.insert 3 ⟨2, 9⟩)⟩]).state.Consistent (.entries 1) (.entries 1) :=
  consistent_run (pairBuilder none none) byteStorage (pair_built none none) _

end Overflow

end CacheLayer
