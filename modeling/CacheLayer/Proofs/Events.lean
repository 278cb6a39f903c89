import CacheLayer.Eviction
import CacheLayer.Metrics
import CacheLayer.Proofs.MapRequest
import Mathlib.Logic.Function.Basic

/-!
# Events and counters

What a cache tells its listener and what it counts, in terms that fit every kind of cache.

* `toldFor` : how many events give a reason.
* `Books.Tell` : the counters grew by what the events tell; `Tell.trans` puts steps in a row.
* `MapRequest.storing` : what was stored last under each key.
-/

namespace CacheLayer

variable {K : Type u} {V : Type v}

/-! ## How often a reason is given -/

def toldFor (reason : EvictionReason) (events : List (Eviction K V)) : Nat :=
  events.countP fun e => e.reason = reason

@[simp] theorem toldFor_nil (reason : EvictionReason) :
    toldFor reason ([] : List (Eviction K V)) = 0 := rfl

theorem toldFor_cons (reason : EvictionReason) (e : Eviction K V) (events : List (Eviction K V)) :
    toldFor reason (e :: events) = toldFor reason events + if e.reason = reason then 1 else 0 := by
  unfold toldFor
  rw [List.countP_cons]
  simp only [decide_eq_true_eq]

theorem toldFor_append (reason : EvictionReason) (events events' : List (Eviction K V)) :
    toldFor reason (events ++ events') = toldFor reason events + toldFor reason events' :=
  List.countP_append

/-! ## What the counters grow by -/

/-- The counters of a cache, and how many entries it has on disk. -/
structure Books where
  metrics : Metrics
  onDisk : Nat := 0

namespace Books

/-- From `b` to `b'` the counters grew by what `events` tell and by so many look-ups. What left for
want of room is counted as evicted or as a failed write. -/
structure Tell (b b' : Books) (events : List (Eviction K V)) (lookups : Nat) : Prop where
  removed : b'.metrics.removals = b.metrics.removals + toldFor .removed events
  expired : b'.metrics.evictedByTtl + b'.metrics.evictedByTti =
    b.metrics.evictedByTtl + b.metrics.evictedByTti + toldFor .expired events
  reclaimed : b'.metrics.reclaimed = b.metrics.reclaimed + toldFor .reclaimed events
  crowded : b'.metrics.evictedByCapacity + b'.metrics.diskWriteFailures =
    b.metrics.evictedByCapacity + b.metrics.diskWriteFailures +
      (toldFor .capacity events + toldFor .overflow events)
  lookedUp : b'.metrics.hits + b'.metrics.misses = b.metrics.hits + b.metrics.misses + lookups
  /-- Every hit on disk is a hit. -/
  diskHits : b'.metrics.diskHits + b.metrics.hits ≤ b.metrics.diskHits + b'.metrics.hits
  /-- What comes back from disk was spilled, and no longer lies there. -/
  drained : b'.metrics.diskHits + b'.onDisk + b.metrics.spilledToDisk ≤
    b.metrics.diskHits + b.onDisk + b'.metrics.spilledToDisk

namespace Tell

variable {b b' b'' : Books} {events events' : List (Eviction K V)} {n n' : Nat}

theorem refl (b : Books) : Tell b b ([] : List (Eviction K V)) 0 :=
  ⟨rfl, rfl, rfl, rfl, rfl, Nat.le_refl _, Nat.le_refl _⟩

theorem trans (h : Tell b b' events n) (h' : Tell b' b'' events' n') :
    Tell b b'' (events ++ events') (n + n') := by
  obtain ⟨hremoved, hexpired, hreclaimed, hcrowded, hlookedUp, hdiskHits, hdrained⟩ := h
  obtain ⟨hremoved', hexpired', hreclaimed', hcrowded', hlookedUp', hdiskHits', hdrained'⟩ := h'
  constructor
  any_goals simp only [toldFor_append]
  all_goals omega

variable (m : Metrics) (d : Nat)

theorem hit : Tell ⟨m, d⟩ ⟨m.hit, d⟩ ([] : List (Eviction K V)) 1 :=
  ⟨rfl, rfl, rfl, rfl, Nat.add_right_comm .., Nat.add_le_add_left (Nat.le_succ _) _, Nat.le_refl _⟩

theorem miss : Tell ⟨m, d⟩ ⟨m.miss, d⟩ ([] : List (Eviction K V)) 1 :=
  ⟨rfl, rfl, rfl, rfl, rfl, Nat.le_refl _, Nat.le_refl _⟩

theorem insert :
    Tell ⟨m, d⟩ ⟨{ m with inserts := m.inserts + 1 }, d⟩ ([] : List (Eviction K V)) 0 :=
  ⟨rfl, rfl, rfl, rfl, rfl, Nat.le_refl _, Nat.le_refl _⟩

variable (k : K) (value : Option (Shared V))

theorem remove :
    Tell ⟨m, d⟩ ⟨{ m with removals := m.removals + 1 }, d⟩ [⟨k, value, .removed⟩] 0 :=
  ⟨rfl, rfl, rfl, rfl, rfl, Nat.le_refl _, Nat.le_refl _⟩

theorem reclaim :
    Tell ⟨m, d⟩ ⟨{ m with reclaimed := m.reclaimed + 1 }, d⟩ [⟨k, value, .reclaimed⟩] 0 :=
  ⟨rfl, rfl, rfl, rfl, rfl, Nat.le_refl _, Nat.le_refl _⟩

theorem expire (x : Expiration) : Tell ⟨m, d⟩ ⟨m.expired x, d⟩ [⟨k, value, .expired⟩] 0 := by
  cases x with
  | live =>
    exact ⟨rfl, Nat.add_right_comm .., rfl, rfl, rfl, Nat.le_refl _, Nat.le_refl _⟩
  | idle => exact ⟨rfl, rfl, rfl, rfl, rfl, Nat.le_refl _, Nat.le_refl _⟩

end Tell

end Books

/-! ## What was asked and stored -/

namespace MapRequest

def lookups : MapRequest K α → Nat
  | .get _ => 1
  | _ => 0

variable [DecidableEq K]

/-- What was stored last under each key, after a request. -/
def storing (stored : K → Option α) : MapRequest K α → K → Option α
  | .insert k value => Function.update stored k (some value)
  | _ => stored

end MapRequest

end CacheLayer
