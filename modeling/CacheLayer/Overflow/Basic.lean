import CacheLayer.Codec.Basic
import CacheLayer.Metrics
import CacheLayer.Overflow.Disk

/-!
# The two-tier cache

A cache of a bounded memory tier over an optional disk tier. An insertion and a hit make a key the
most recent; entries beyond the memory bound leave from the old end, to the disk where there is one,
and entries beyond the disk bound are dropped. Reading an entry from disk moves it back to memory.
Failures of the disk never reach the caller: a write that fails drops the entry, a read that fails
is a miss.

* `Overflow.takeIn` puts an entry at the front of the memory tier and spills what no longer fits.
* `Overflow.promote` reads an entry back from disk.
* `Overflow.insert`, `remove`, `get`, `contains`, `keys`, `size`, `purgeExpired` and `close` are the
  operations of the cache.
-/

namespace CacheLayer

/-- The options of a two-tier cache. -/
structure OverflowSettings (V : Type v) where
  name : String
  memoryBound : Bound
  persistence : Persistence
  timeToLive : Option Duration
  timeToIdle : Option Duration
  /-- How values are written to disk; their encoded size is their weight under a byte bound. -/
  codec : Codec V
  /-- The weight, under a byte bound, of a value that cannot be encoded. -/
  footprint : Nat

/-- A two-tier cache. -/
structure Overflow (K : Type u) (V : Type v) where
  settings : OverflowSettings V
  /-- The entries of the memory tier. -/
  entries : Table K (Entry V)
  /-- The recency of the memory tier. -/
  order : Recency K
  disk : Option (DiskTier K)
  /-- The keys of both tiers. -/
  keyIndex : KeySet K
  metrics : Metrics

namespace Overflow

variable {K : Type u} {V : Type v}

/-- An empty cache over `disk`, made at `now`. -/
def make (settings : OverflowSettings V) (disk : Option (DiskTier K)) (now : Nat) : Overflow K V :=
  ⟨settings, .empty, .empty, disk, .empty, .startedAt now⟩

/-- The weight of a value under the memory bound. -/
def weigh (c : Overflow K V) (v : V) : Nat :=
  match c.settings.memoryBound with
  | .entries _ => 1
  | .bytes _ =>
    match c.settings.codec.encode v with
    | .ok bytes => bytes.length
    | .error _ => c.settings.footprint

def timeless (c : Overflow K V) : Bool :=
  c.settings.timeToLive.isNone && c.settings.timeToIdle.isNone

/-- Why an entry of the memory tier is expired, if it is. -/
def expiration (c : Overflow K V) (w : World) (e : Entry V) : Option Expiration :=
  e.stamps.expiration w.now c.settings.timeToIdle

/-- The stamps after a use, which count only under a time to idle. -/
def touched (c : Overflow K V) (w : World) (t : Timestamps) : Timestamps :=
  if c.settings.timeToIdle.isSome then t.touch w.now else t

def memorySize (c : Overflow K V) : Nat := c.entries.size

def diskSize (c : Overflow K V) : Nat := (c.disk.map DiskTier.size).getD 0

def diskSizeBytes (c : Overflow K V) : Nat := (c.disk.map DiskTier.sizeBytes).getD 0

/-- The directory of the disk tier while it is open. -/
def place (c : Overflow K V) : Option TierPlace := c.disk.bind DiskTier.place

variable [DecidableEq K]

def inMemory (c : Overflow K V) (k : K) : Bool := c.entries.contains k

def onDisk (c : Overflow K V) (k : K) : Bool :=
  match c.disk with
  | some disk => disk.contains k
  | none => false

/-! ## Leaving memory -/

/-- Takes `victims`, pushed off the disk, out of the key index, and reports them. -/
def pushedOff (c : Overflow K V) (w : World) (victims : List K) :
    Step (Overflow K V) (Eviction K V) Unit where
  answer := ()
  state := { c with
    keyIndex := victims.foldl Table.erase c.keyIndex
    metrics := { c.metrics with
      evictedByCapacity := c.metrics.evictedByCapacity + victims.length } }
  world := w
  log := victims.map fun k => ⟨k, none, .capacity⟩

/-- Deals with an entry that has left the memory tier: an expired one is dropped, another goes to
the disk, or is dropped where there is none or it cannot be written. -/
def spill (c : Overflow K V) (w : World) (k : K) (e : Entry V) :
    Step (Overflow K V) (Eviction K V) Unit :=
  let dropped := { c with keyIndex := c.keyIndex.erase k }
  match c.expiration w e with
  | some x =>
    ⟨(), { dropped with metrics := c.metrics.expired x }, w, [⟨k, some e.value, .expired⟩]⟩
  | none =>
    match c.disk with
    | none =>
      ⟨(), { dropped with
          metrics := { c.metrics with evictedByCapacity := c.metrics.evictedByCapacity + 1 } },
        w, [⟨k, some e.value, .overflow⟩]⟩
    | some disk =>
      let failed (disk : DiskTier K) (w : World) : Step (Overflow K V) (Eviction K V) Unit :=
        ⟨(), { dropped with
            disk := some disk
            metrics := { c.metrics with diskWriteFailures := c.metrics.diskWriteFailures + 1 } },
          w, [⟨k, some e.value, .overflow⟩]⟩
      match c.settings.codec.encode e.value.value with
      | .error _ => failed disk w
      | .ok bytes =>
        let written := disk.write w.area k bytes e.stamps.snapshot
        let w := { w with area := written.area }
        match written.answer with
        | none => failed written.tier w
        | some victims =>
          { c with
            disk := some written.tier
            metrics := { c.metrics with spilledToDisk := c.metrics.spilledToDisk + 1 }
            }.pushedOff w victims

/-- Deals with the keys that have left the recency list of the memory tier, oldest first. -/
def spillAll (c : Overflow K V) (w : World) : List K → Step (Overflow K V) (Eviction K V) Unit
  | [] => .pure () c w
  | k :: ks =>
    match c.entries.get? k with
    | none => c.spillAll w ks
    | some e =>
      ({ c with entries := c.entries.erase k }.spill w k e).bind fun _ c w => c.spillAll w ks

/-- Puts an entry at the front of the memory tier and spills the oldest until the tier is within its
bound. -/
def takeIn (c : Overflow K V) (w : World) (k : K) (e : Entry V) :
    Step (Overflow K V) (Eviction K V) Unit :=
  let order := c.order.pushFront k e.weight
  let (order, victims) := Recency.trim c.settings.memoryBound.exceededBy order.size order
  { c with
    order
    entries := c.entries.insert k e
    keyIndex := c.keyIndex.insert k () }.spillAll w victims

/-! ## Looking up -/

/-- Drops an expired entry of the memory tier. -/
def expireMemory (c : Overflow K V) (w : World) (k : K) :
    Step (Overflow K V) (Eviction K V) Unit :=
  match c.entries.get? k with
  | none => .pure () c w
  | some e =>
    ⟨(), { c with
        entries := c.entries.erase k
        order := c.order.remove k
        keyIndex := c.keyIndex.erase k
        metrics := match c.expiration w e with
          | some x => c.metrics.expired x
          | none => c.metrics },
      w, [⟨k, some e.value, .expired⟩]⟩

/-- Drops an expired entry of the disk tier. -/
def expireDisk (c : Overflow K V) (w : World) (disk : DiskTier K) (k : K) (x : Expiration) :
    Step (Overflow K V) (Eviction K V) Unit :=
  let removed := disk.remove w.area k
  ⟨(), { c with
      disk := some removed.tier
      keyIndex := c.keyIndex.erase k
      metrics := c.metrics.expired x },
    { w with area := removed.area }, [⟨k, none, .expired⟩]⟩

/-- Reads an entry back from disk into the front of the memory tier. -/
def promote (c : Overflow K V) (w : World) (k : K) :
    Step (Overflow K V) (Eviction K V) (Option (Shared V)) :=
  match c.disk with
  | none => .pure none c w
  | some disk =>
    match disk.expiration w.now c.settings.timeToIdle k with
    | some x => (c.expireDisk w disk k x).mapAnswer fun _ => none
    | none =>
      match disk.take w.area k with
      | none => .pure none c w
      | some taken =>
        let w := { w with area := taken.area }
        let lost := { c with disk := some taken.tier, keyIndex := c.keyIndex.erase k }
        match taken.answer with
        | none => .pure none lost w
        | some (bytes, stamps) =>
          match c.settings.codec.read bytes with
          | .error _ => .pure none lost w
          | .ok v =>
            let (value, w) := w.share v
            let c := { c with
              disk := some taken.tier
              metrics := { c.metrics with diskHits := c.metrics.diskHits + 1 } }
            (c.takeIn w k ⟨value, c.weigh v, c.touched w stamps⟩).mapAnswer fun _ => some value

/-- Looks `k` up in memory and then on disk, without counting. -/
def find (c : Overflow K V) (w : World) (k : K) :
    Step (Overflow K V) (Eviction K V) (Option (Shared V)) :=
  match c.entries.get? k with
  | none => c.promote w k
  | some e =>
    match c.expiration w e with
    | some _ => (c.expireMemory w k).mapAnswer fun _ => none
    | none =>
      .pure (some e.value)
        { c with
          entries := c.entries.insert k { e with stamps := c.touched w e.stamps }
          order := c.order.moveToFront k } w

/-! ## The operations -/

/-- Stores a value under `k`, in place of what either tier holds. -/
def insert (c : Overflow K V) (w : World) (k : K) (value : Shared V) :
    Step (Overflow K V) (Eviction K V) Unit :=
  let entry : Entry V := ⟨value, c.weigh value.value,
    .create w.now c.settings.timeToLive c.settings.timeToIdle⟩
  let cleared := { c with entries := c.entries.erase k, order := c.order.remove k }
  let (cleared, w) := match c.disk with
    | none => (cleared, w)
    | some disk =>
      let removed := disk.remove w.area k
      ({ cleared with disk := some removed.tier }, { w with area := removed.area })
  (cleared.takeIn w k entry).mapState fun c =>
    { c with metrics := { c.metrics with inserts := c.metrics.inserts + 1 } }

/-- Removes `k` and says whether a live value was there. -/
def remove (c : Overflow K V) (w : World) (k : K) : Step (Overflow K V) (Eviction K V) Bool :=
  let c := { c with keyIndex := c.keyIndex.erase k }
  let counted : Metrics := { c.metrics with removals := c.metrics.removals + 1 }
  match c.entries.get? k with
  | some e =>
    let c := { c with entries := c.entries.erase k, order := c.order.remove k }
    match c.expiration w e with
    | some x =>
      ⟨false, { c with metrics := c.metrics.expired x }, w, [⟨k, some e.value, .expired⟩]⟩
    | none => ⟨true, { c with metrics := counted }, w, [⟨k, some e.value, .removed⟩]⟩
  | none =>
    match c.disk with
    | none => .pure false c w
    | some disk =>
      let removed := disk.remove w.area k
      let c := { c with disk := some removed.tier }
      let w := { w with area := removed.area }
      if removed.answer then ⟨true, { c with metrics := counted }, w, [⟨k, none, .removed⟩]⟩
      else .pure false c w

/-- Looks `k` up and counts a hit or a miss. -/
def get (c : Overflow K V) (w : World) (k : K) :
    Step (Overflow K V) (Eviction K V) (Option (Shared V)) :=
  let found := c.find w k
  found.mapState fun c =>
    { c with metrics := if found.answer.isSome then c.metrics.hit else c.metrics.miss }

/-- Drops the entries of the memory tier listed. -/
def expireAllMemory (c : Overflow K V) (w : World) :
    List K → Step (Overflow K V) (Eviction K V) Unit
  | [] => .pure () c w
  | k :: ks => (c.expireMemory w k).bind fun _ c w => c.expireAllMemory w ks

/-- Drops the entries of the disk tier listed. -/
def expireAllDisk (c : Overflow K V) (w : World) :
    List (K × Expiration) → Step (Overflow K V) (Eviction K V) Unit
  | [] => .pure () c w
  | (k, x) :: rest =>
    match c.disk with
    | none => .pure () c w
    | some disk => (c.expireDisk w disk k x).bind fun _ c w => c.expireAllDisk w rest

/-- Drops every expired entry of both tiers. -/
def purgeExpired (c : Overflow K V) (w : World) : Step (Overflow K V) (Eviction K V) Unit :=
  if c.timeless then .pure () c w
  else
    let expired := c.entries.entries.filterMap fun e => (c.expiration w e.2).map fun _ => e.1
    (c.expireAllMemory w expired).bind fun _ c w =>
      match c.disk with
      | none => .pure () c w
      | some disk => c.expireAllDisk w (disk.expiredKeys w.now c.settings.timeToIdle)

/-- Drops the expired entries and gives the keys of the others. -/
def keys (c : Overflow K V) (w : World) : Step (Overflow K V) (Eviction K V) (List K) :=
  let purged := c.purgeExpired w
  purged.mapAnswer fun _ => purged.state.keyIndex.keys

/-- Drops the expired entries and gives the number of the others. -/
def size (c : Overflow K V) (w : World) : Step (Overflow K V) (Eviction K V) Nat :=
  let purged := c.purgeExpired w
  purged.mapAnswer fun _ => purged.state.keyIndex.size

/-- Whether a live value is stored under `k`. -/
def contains (c : Overflow K V) (w : World) (k : K) : Bool :=
  if !c.keyIndex.contains k then false
  else if c.timeless then true
  else match c.entries.get? k with
    | some e => (c.expiration w e).isNone
    | none =>
      match c.disk with
      | some disk => disk.contains k && (disk.expiration w.now c.settings.timeToIdle k).isNone
      | none => false

omit [DecidableEq K] in
/-- Drops every entry and the directory of the disk tier. -/
def close (c : Overflow K V) (w : World) : Step (Overflow K V) (Eviction K V) Unit :=
  let c := { c with entries := .empty, order := .empty, keyIndex := .empty }
  match c.disk with
  | none => .pure () c w
  | some disk =>
    let (disk, area) := disk.close w.area
    .pure () { c with disk := some disk } { w with area }

omit [DecidableEq K] in
def debug (c : Overflow K V) (w : World) : String :=
  Text.record "DiskOverflowCache"
    [("name", Text.quoted c.settings.name), ("memory_bound", c.settings.memoryBound.debug),
     ("persistence", c.settings.persistence.debug),
     ("time_to_live", Text.optional Text.duration c.settings.timeToLive),
     ("time_to_idle", Text.optional Text.duration c.settings.timeToIdle),
     ("metrics", c.metrics.debug w.now)] true

end Overflow

end CacheLayer
