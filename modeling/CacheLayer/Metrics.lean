import CacheLayer.Text.Binary64
import CacheLayer.Text.Debug
import CacheLayer.Timestamps

/-!
# Counters

What a cache counts, and a reading of its counters at a moment.
-/

namespace CacheLayer

/-- The counters of a cache and the moment it was made. -/
structure Metrics where
  hits : Nat := 0
  misses : Nat := 0
  inserts : Nat := 0
  removals : Nat := 0
  evictedByCapacity : Nat := 0
  evictedByTtl : Nat := 0
  evictedByTti : Nat := 0
  reclaimed : Nat := 0
  spilledToDisk : Nat := 0
  diskHits : Nat := 0
  diskWriteFailures : Nat := 0
  started : Nat := 0
  deriving DecidableEq, Repr

namespace Metrics

/-- The counters of a cache made at `now`. -/
def startedAt (now : Nat) : Metrics := { started := now }

def hit (m : Metrics) : Metrics := { m with hits := m.hits + 1 }

def miss (m : Metrics) : Metrics := { m with misses := m.misses + 1 }

def expired (m : Metrics) : Expiration → Metrics
  | .live => { m with evictedByTtl := m.evictedByTtl + 1 }
  | .idle => { m with evictedByTti := m.evictedByTti + 1 }

/-- The share of hits among the look-ups, zero before the first. -/
def hitRatio (m : Metrics) : Binary64 := .ofRatio m.hits (max 1 (m.hits + m.misses))

/-- The whole seconds that have passed at `now` since the start. -/
def uptime (m : Metrics) (now : Nat) : Nat := (now - m.started) / Duration.nanosPerSecond

/-- The counters with their names. -/
def counters (m : Metrics) : List (String × Nat) :=
  [("hits", m.hits), ("misses", m.misses), ("inserts", m.inserts), ("removals", m.removals),
   ("evicted_by_capacity", m.evictedByCapacity), ("evicted_by_ttl", m.evictedByTtl),
   ("evicted_by_tti", m.evictedByTti), ("reclaimed", m.reclaimed),
   ("spilled_to_disk", m.spilledToDisk), ("disk_hits", m.diskHits),
   ("disk_write_failures", m.diskWriteFailures)]

/-- The text of a reading at `now`; the share of hits follows the two counters it comes from. -/
def debug (m : Metrics) (now : Nat) : String :=
  let texts := m.counters.map fun c => (c.1, toString c.2)
  Text.record "MetricsSnapshot"
    (texts.take 2 ++ [("hit_ratio", m.hitRatio.text)] ++ texts.drop 2 ++
      [("uptime_secs", toString (m.uptime now))]) false

end Metrics

end CacheLayer
