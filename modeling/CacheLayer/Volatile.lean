import CacheLayer.Eviction
import CacheLayer.Metrics
import CacheLayer.Table
import CacheLayer.Weyl

/-!
# The volatile cache

A cache in memory alone, spread over shards by the hash of the key, with a time to live and a time
to idle. An expired entry counts as absent; it is dropped when it is looked up, when a purge meets
it, or when an insertion happens to sweep its shard, which one in sixteen does.
-/

namespace CacheLayer

/-- A sharded cache in memory. -/
structure Volatile (K : Type u) (V : Type v) where
  name : String
  timeToLive : Option Duration
  timeToIdle : Option Duration
  /-- What the shard of a key is chosen by. -/
  hash : K → UInt64
  shards : List (Table K (Entry V))
  /-- What decides when an insertion sweeps, and which shard. -/
  generator : Weyl
  metrics : Metrics

namespace Volatile

variable {K : Type u} {V : Type v}

/-- One in so many insertions sweeps a shard. -/
def sweepPeriod : UInt64 := 16

/-- An empty cache of `count` shards, made at `now`. -/
def make (name : String) (count : Nat) (hash : K → UInt64) (timeToLive timeToIdle : Option Duration)
    (now : Nat) : Volatile K V :=
  ⟨name, timeToLive, timeToIdle, hash, List.replicate count .empty, .seeded (UInt64.ofNat count),
    .startedAt now⟩

def timeless (c : Volatile K V) : Bool := c.timeToLive.isNone && c.timeToIdle.isNone

/-- Why an entry is expired, if it is. -/
def expiration (c : Volatile K V) (now : Nat) (e : Entry V) : Option Expiration :=
  e.stamps.expiration now c.timeToIdle

/-- Whether an entry counts as present. -/
def live (c : Volatile K V) (now : Nat) (e : Entry V) : Bool := (c.expiration now e).isNone

def shardOf (c : Volatile K V) (k : K) : Nat := (c.hash k).toNat % c.shards.length

def shard (c : Volatile K V) (i : Nat) : Table K (Entry V) := c.shards[i]?.getD .empty

/-- Puts a shard in the place of the one of a number. -/
def setShard (c : Volatile K V) (i : Nat) (t : Table K (Entry V)) : Volatile K V :=
  { c with shards := c.shards.set i t }

/-- What an operation gives: an answer, the cache after it and the entries that left. -/
structure Change (K : Type u) (V : Type v) (α : Type w) where
  answer : α
  cache : Volatile K V
  events : List (Eviction K V)

/-- Drops the expired entries of a shard. -/
def sweep (c : Volatile K V) (now : Nat) (i : Nat) : Change K V Unit :=
  if c.timeless then ⟨(), c, []⟩
  else
    let gone := (c.shard i).entries.filterMap fun e => (c.expiration now e.2).map fun x => (e, x)
    let kept := (c.shard i).keep fun _ e => c.live now e
    ⟨(), { c.setShard i kept with metrics := gone.foldl (fun m g => m.expired g.2) c.metrics },
      gone.map fun g => ⟨g.1.1, some g.1.2.value, .expired⟩⟩

/-- Drops the expired entries of the shards listed. -/
def sweepAll (c : Volatile K V) (now : Nat) : List Nat → Change K V Unit
  | [] => ⟨(), c, []⟩
  | i :: is =>
    let first := c.sweep now i
    let rest := first.cache.sweepAll now is
    ⟨(), rest.cache, first.events ++ rest.events⟩

def purgeExpired (c : Volatile K V) (now : Nat) : Change K V Unit :=
  c.sweepAll now (List.range c.shards.length)

def keys (c : Volatile K V) (now : Nat) : List K :=
  c.shards.flatMap fun t => (t.keep fun _ e => c.live now e).keys

def size (c : Volatile K V) (now : Nat) : Nat := (c.keys now).length

def close (c : Volatile K V) : Volatile K V := { c with shards := c.shards.map fun _ => .empty }

def debug (c : Volatile K V) (now : Nat) : String :=
  Text.record "VolatileCache"
    [("name", Text.quoted c.name),
     ("time_to_live", Text.optional Text.duration c.timeToLive),
     ("time_to_idle", Text.optional Text.duration c.timeToIdle),
     ("metrics", c.metrics.debug now)] true

variable [DecidableEq K]

/-- The entry of `k`, live or not. -/
def stored? (c : Volatile K V) (k : K) : Option (Entry V) := (c.shard (c.shardOf k)).get? k

def erase (c : Volatile K V) (k : K) : Volatile K V :=
  c.setShard (c.shardOf k) ((c.shard (c.shardOf k)).erase k)

def store (c : Volatile K V) (k : K) (e : Entry V) : Volatile K V :=
  c.setShard (c.shardOf k) ((c.shard (c.shardOf k)).insert k e)

/-- Stores a value under `k`, in place of the one before, and sweeps a shard now and then. -/
def insert (c : Volatile K V) (now : Nat) (k : K) (value : Shared V) : Change K V Unit :=
  let stored := c.store k ⟨value, 1, .create now c.timeToLive c.timeToIdle⟩
  let stored := { stored with metrics := { c.metrics with inserts := c.metrics.inserts + 1 } }
  let (due, generator) := stored.generator.shouldRun sweepPeriod
  if due then
    let (i, generator) := generator.below stored.shards.length
    { stored with generator }.sweep now i
  else ⟨(), { stored with generator }, []⟩

/-- Removes `k` and says whether a live value was there. -/
def remove (c : Volatile K V) (now : Nat) (k : K) : Change K V Bool :=
  match c.stored? k with
  | none => ⟨false, c, []⟩
  | some e =>
    match c.expiration now e with
    | some x =>
      ⟨false, { c.erase k with metrics := c.metrics.expired x }, [⟨k, some e.value, .expired⟩]⟩
    | none =>
      ⟨true, { c.erase k with metrics := { c.metrics with removals := c.metrics.removals + 1 } },
        [⟨k, some e.value, .removed⟩]⟩

/-- Looks `k` up and counts a hit or a miss. -/
def get (c : Volatile K V) (now : Nat) (k : K) : Change K V (Option (Shared V)) :=
  match c.stored? k with
  | none => ⟨none, { c with metrics := c.metrics.miss }, []⟩
  | some e =>
    match c.expiration now e with
    | some x =>
      ⟨none, { c.erase k with metrics := (c.metrics.expired x).miss },
        [⟨k, some e.value, .expired⟩]⟩
    | none =>
      let c := if c.timeToIdle.isSome then c.store k { e with stamps := e.stamps.touch now } else c
      ⟨some e.value, { c with metrics := c.metrics.hit }, []⟩

/-- Whether a live value is stored under `k`. -/
def contains (c : Volatile K V) (now : Nat) (k : K) : Bool :=
  match c.stored? k with
  | some e => c.live now e
  | none => false

end Volatile

end CacheLayer
