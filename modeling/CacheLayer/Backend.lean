import CacheLayer.Overflow.Basic
import CacheLayer.Soft
import CacheLayer.Volatile

/-!
# Backends

One interface over the four kinds of cache that store values themselves, among them the one that
stores nothing.
-/

namespace CacheLayer

/-- A cache that stores values itself. -/
inductive Backend (K : Type u) (V : Type v) where
  /-- Memory over disk. -/
  | overflow (cache : Overflow K V)
  /-- Memory with timeouts. -/
  | volatile (cache : Volatile K V)
  /-- Values that may be reclaimed. -/
  | soft (cache : Soft K V)
  /-- Nothing is stored. -/
  | absent (name : String)

/-- What kind of cache something is. -/
inductive CacheType where
  | diskOverflow
  | volatile
  | softReference
  | noOp
  /-- A provider fills what is missing. -/
  | selfPopulating
  deriving DecidableEq, Repr

def CacheType.text : CacheType → String
  | .diskOverflow => "disk_overflow"
  | .volatile => "volatile"
  | .softReference => "soft_reference"
  | .noOp => "no_op"
  | .selfPopulating => "self_populating"

def CacheType.debug : CacheType → String
  | .diskOverflow => "DiskOverflow"
  | .volatile => "Volatile"
  | .softReference => "SoftReference"
  | .noOp => "NoOp"
  | .selfPopulating => "SelfPopulating"

namespace Backend

variable {K : Type u} {V : Type v}

def name : Backend K V → String
  | overflow c => c.settings.name
  | volatile c => c.name
  | soft c => c.name
  | absent n => n

def cacheType : Backend K V → CacheType
  | overflow _ => .diskOverflow
  | volatile _ => .volatile
  | soft _ => .softReference
  | absent _ => .noOp

def metrics : Backend K V → Option Metrics
  | overflow c => some c.metrics
  | volatile c => some c.metrics
  | soft c => some c.metrics
  | absent _ => none

/-- The text of the cache; of one that stores nothing, its name. -/
def debug (w : World) : Backend K V → String
  | overflow c => c.debug w
  | volatile c => c.debug w.now
  | soft c => c.debug w.now
  | absent n => n

/-- The identities of the objects that the cache keeps alive. -/
def retainedIds : Backend K V → List Nat
  | overflow c => c.entries.values.map fun e => e.value.id
  | volatile c => c.shards.flatMap fun t => t.values.map fun e => e.value.id
  | soft c => c.heap.retained.values.map Shared.id
  | absent _ => []

/-- Drops every entry and what the cache holds on disk. -/
def close (w : World) : Backend K V → Step (Backend K V) (Eviction K V) Unit
  | overflow c => (c.close w).mapState overflow
  | volatile c => .pure () (volatile c.close) w
  | soft c => .pure () (soft c.close) w
  | absent n => .pure () (absent n) w

variable [DecidableEq K]

def insert (w : World) (k : K) (value : Shared V) :
    Backend K V → Step (Backend K V) (Eviction K V) Unit
  | overflow c => (c.insert w k value).mapState overflow
  | volatile c => let out := c.insert w.now k value; ⟨(), volatile out.cache, w, out.events⟩
  | soft c => let out := c.insert w k value; ⟨(), soft out.cache, w, out.events⟩
  | absent n => .pure () (absent n) w

/-- Removes `k` and says whether a live value was there. -/
def remove (w : World) (k : K) : Backend K V → Step (Backend K V) (Eviction K V) Bool
  | overflow c => (c.remove w k).mapState overflow
  | volatile c => let out := c.remove w.now k; ⟨out.answer, volatile out.cache, w, out.events⟩
  | soft c => let out := c.remove w k; ⟨out.answer, soft out.cache, w, out.events⟩
  | absent n => .pure false (absent n) w

def get (w : World) (k : K) : Backend K V → Step (Backend K V) (Eviction K V) (Option (Shared V))
  | overflow c => (c.get w k).mapState overflow
  | volatile c => let out := c.get w.now k; ⟨out.answer, volatile out.cache, w, out.events⟩
  | soft c => let out := c.get w k; ⟨out.answer, soft out.cache, w, out.events⟩
  | absent n => .pure none (absent n) w

def keys (w : World) : Backend K V → Step (Backend K V) (Eviction K V) (List K)
  | overflow c => (c.keys w).mapState overflow
  | volatile c => .pure (c.keys w.now) (volatile c) w
  | soft c => let out := c.keys w; ⟨out.answer, soft out.cache, w, out.events⟩
  | absent n => .pure [] (absent n) w

def size (w : World) : Backend K V → Step (Backend K V) (Eviction K V) Nat
  | overflow c => (c.size w).mapState overflow
  | volatile c => .pure (c.size w.now) (volatile c) w
  | soft c => ((soft c).keys w).mapAnswer List.length
  | absent n => .pure 0 (absent n) w

def contains (w : World) (k : K) : Backend K V → Bool
  | overflow c => c.contains w k
  | volatile c => c.contains w.now k
  | soft c => c.contains w k
  | absent _ => false

/-- Drops the expired entries of a cache with timeouts. -/
def purgeExpired (w : World) : Backend K V → Option (Step (Backend K V) (Eviction K V) Unit)
  | overflow c => some ((c.purgeExpired w).mapState overflow)
  | volatile c => let out := c.purgeExpired w.now; some ⟨(), volatile out.cache, w, out.events⟩
  | _ => none

end Backend

end CacheLayer
