import CacheLayer.Eviction
import CacheLayer.Metrics
import CacheLayer.SoftHeap

/-!
# The soft cache

A cache that keeps its keys but leaves the values to a soft heap: an entry lasts while the heap, or
somebody outside, keeps its object alive. Keys that the heap gave up are looked at on the next
insertion, look-up or listing, and dropped if their objects are dead.
-/

namespace CacheLayer

/-- A cache of handles to values that a soft heap keeps alive. -/
structure Soft (K : Type u) (V : Type v) where
  name : String
  /-- The handle stored under each key. -/
  handles : Table K (Shared V)
  heap : SoftHeap K V
  metrics : Metrics

namespace Soft

variable {K : Type u} {V : Type v}

/-- An empty cache that keeps at most `capacity` values alive, made at `now`. -/
def make (name : String) (capacity now : Nat) : Soft K V :=
  ⟨name, .empty, .ofCapacity capacity, .startedAt now⟩

/-- Whether the object of a handle is alive. -/
def alive (c : Soft K V) (w : World) (s : Shared V) : Bool := c.heap.alive w s

/-- What an operation gives: an answer, the cache after it and the entries that left. -/
structure Change (K : Type u) (V : Type v) (α : Type w) where
  answer : α
  cache : Soft K V
  events : List (Eviction K V)

variable [DecidableEq K]

/-- Drops `k` if its object is dead. -/
def purge (c : Soft K V) (w : World) (k : K) : Change K V Unit :=
  match c.handles.get? k with
  | none => ⟨(), c, []⟩
  | some s =>
    if c.alive w s then ⟨(), c, []⟩
    else
      ⟨(), { c with
          handles := c.handles.erase k
          metrics := { c.metrics with reclaimed := c.metrics.reclaimed + 1 } },
        [⟨k, none, .reclaimed⟩]⟩

/-- Drops those of the keys listed whose objects are dead. -/
def purgeAll (c : Soft K V) (w : World) : List K → Change K V Unit
  | [] => ⟨(), c, []⟩
  | k :: ks =>
    let first := c.purge w k
    let rest := first.cache.purgeAll w ks
    ⟨(), rest.cache, first.events ++ rest.events⟩

/-- Looks at the keys that the heap gave up. -/
def sweep (c : Soft K V) (w : World) : Change K V Unit :=
  let (queued, heap) := c.heap.drain
  { c with heap }.purgeAll w queued

/-- Stores a value under `k`, in place of the one before. -/
def insert (c : Soft K V) (w : World) (k : K) (value : Shared V) : Change K V Unit :=
  { c with
    heap := c.heap.retain k value
    handles := c.handles.insert k value
    metrics := { c.metrics with inserts := c.metrics.inserts + 1 } }.sweep w

/-- Removes `k` and says whether a live value was there. -/
def remove (c : Soft K V) (w : World) (k : K) : Change K V Bool :=
  let handle := c.handles.get? k
  let (strong, heap) := c.heap.release k
  let c := { c with handles := c.handles.erase k, heap }
  match strong.or (handle.filter (c.alive w)) with
  | some s =>
    ⟨true, { c with metrics := { c.metrics with removals := c.metrics.removals + 1 } },
      [⟨k, some s, .removed⟩]⟩
  | none => ⟨false, c, []⟩

/-- Looks `k` up and counts a hit or a miss. -/
def get (c : Soft K V) (w : World) (k : K) : Change K V (Option (Shared V)) :=
  let swept := c.sweep w
  let c := swept.cache
  match c.handles.get? k with
  | none => ⟨none, { c with metrics := c.metrics.miss }, swept.events⟩
  | some s =>
    if c.alive w s then
      ⟨some s, { c with heap := c.heap.touch k, metrics := c.metrics.hit }, swept.events⟩
    else
      let purged := c.purge w k
      ⟨none, { purged.cache with metrics := purged.cache.metrics.miss },
        swept.events ++ purged.events⟩

/-- The keys whose objects are alive. -/
def keys (c : Soft K V) (w : World) : Change K V (List K) :=
  let swept := c.sweep w
  ⟨(swept.cache.handles.keep fun _ s => swept.cache.alive w s).keys, swept.cache, swept.events⟩

/-- Whether a live value is stored under `k`. -/
def contains (c : Soft K V) (w : World) (k : K) : Bool :=
  match c.handles.get? k with
  | some s => c.alive w s
  | none => false

omit [DecidableEq K] in
def close (c : Soft K V) : Soft K V := { c with handles := .empty, heap := c.heap.clear }

omit [DecidableEq K] in
def debug (c : Soft K V) (now : Nat) : String :=
  Text.record "SoftReferenceCache"
    [("name", Text.quoted c.name), ("heap", c.heap.debug), ("metrics", c.metrics.debug now)] true

end Soft

end CacheLayer
