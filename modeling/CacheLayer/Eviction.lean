import CacheLayer.World

/-!
# Entries and evictions

An entry is a shared value with its weight and its stamps. An eviction tells that an entry left a
cache, why, and with which value where that was still at hand.
-/

namespace CacheLayer

/-- A stored value with its weight and its stamps. -/
structure Entry (V : Type u) where
  value : Shared V
  weight : Nat
  stamps : Timestamps
  deriving DecidableEq, Repr

/-- Why an entry left a cache. -/
inductive EvictionReason where
  /-- A bound was exceeded. -/
  | capacity
  /-- Its time was over. -/
  | expired
  /-- It was removed on request. -/
  | removed
  /-- Its value was reclaimed. -/
  | reclaimed
  /-- It left the memory tier and could not be kept on disk. -/
  | overflow
  deriving DecidableEq, Repr

def EvictionReason.text : EvictionReason → String
  | .capacity => "evicted due to capacity"
  | .expired => "evicted due to expiration (TTL/TTI)"
  | .removed => "explicitly removed"
  | .reclaimed => "reclaimed under memory pressure"
  | .overflow => "dropped on memory overflow"

def EvictionReason.debug : EvictionReason → String
  | .capacity => "Capacity"
  | .expired => "Expired"
  | .removed => "Removed"
  | .reclaimed => "Reclaimed"
  | .overflow => "Overflow"

/-- An entry that left a cache; there is no value where it was already gone. -/
structure Eviction (K : Type u) (V : Type v) where
  key : K
  value : Option (Shared V)
  reason : EvictionReason
  deriving DecidableEq, Repr

end CacheLayer
