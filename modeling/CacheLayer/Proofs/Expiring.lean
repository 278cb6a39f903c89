import CacheLayer.Metrics
import CacheLayer.Proofs.MapRequest
import CacheLayer.Proofs.Table
import CacheLayer.World

/-!
# A map whose entries expire

The plainest map with a time to live and a time to idle: one table, which keeps with each value its
stamps and in which an entry stays until it is replaced or removed. An entry that its stamps call
expired counts as absent. It says what a cache with expiry ought to look like from outside, whatever it
drops and when.

* `Timestamps.valid_of_later` : what is not expired now was not expired before.
* `Expiring.serve`, `Expiring.run` : what each request and each turn replies and leaves behind.
* `Expiring.present?_wait` : what time takes away.
-/

namespace CacheLayer

namespace Timestamps

def valid (t : Timestamps) (now : Nat) (timeToIdle : Option Duration) : Bool :=
  (t.expiration now timeToIdle).isNone

/-- The stamps after a use, of which only a limit to idling takes note. -/
def used (t : Timestamps) (now : Nat) (timeToIdle : Option Duration) : Timestamps :=
  if timeToIdle.isSome then t.touch now else t

theorem saturate_le {now later : Nat} (h : now ≤ later) : saturate now ≤ saturate later := by
  unfold saturate
  omega

theorem valid_of_later {t : Timestamps} {now later : Nat} {timeToIdle : Option Duration}
    (hle : now ≤ later) (h : t.valid later timeToIdle = true) : t.valid now timeToIdle = true := by
  have hsaturated := saturate_le hle
  unfold valid expiration at h ⊢
  split at h
  · cases h
  · rename_i hlive
    rw [if_neg (by omega)]
    cases timeToIdle with
    | none => rfl
    | some d =>
      dsimp only at h ⊢
      split at h
      · cases h
      · rename_i hidle
        rw [if_neg (by omega)]
        rfl

end Timestamps

structure Tally where
  hits : Nat := 0
  misses : Nat := 0
  inserts : Nat := 0
  removals : Nat := 0
  deriving DecidableEq, Repr

def Metrics.tally (m : Metrics) : Tally := ⟨m.hits, m.misses, m.inserts, m.removals⟩

/-- Values with their stamps, expired or not. -/
structure Expiring (K : Type u) (V : Type v) where
  timeToLive : Option Duration
  timeToIdle : Option Duration
  entries : Table K (Shared V × Timestamps)
  tally : Tally

namespace Expiring

variable {K : Type u} {V : Type v}

def empty (timeToLive timeToIdle : Option Duration) : Expiring K V :=
  ⟨timeToLive, timeToIdle, .empty, {}⟩

variable [DecidableEq K]

/-- The value of `k` with its stamps, unless it is expired. -/
def present? (m : Expiring K V) (now : Nat) (k : K) : Option (Shared V × Timestamps) :=
  (m.entries.get? k).filter fun e => e.2.valid now m.timeToIdle

def keys (m : Expiring K V) (now : Nat) : List K :=
  m.entries.keys.filter fun k => (m.present? now k).isSome

def serve (m : Expiring K V) (now : Nat) :
    MapRequest K (Shared V) → MapReply K (Shared V) × Expiring K V
  | .insert k value =>
    (.done, { m with
      entries := m.entries.insert k (value, .create now m.timeToLive m.timeToIdle)
      tally := { m.tally with inserts := m.tally.inserts + 1 } })
  | .remove k =>
    match m.present? now k with
    | some _ =>
      (.truth true, { m with
        entries := m.entries.erase k
        tally := { m.tally with removals := m.tally.removals + 1 } })
    | none => (.truth false, m)
  | .get k =>
    match m.present? now k with
    | some (value, stamps) =>
      (.value (some value), { m with
        entries := m.entries.insert k (value, stamps.used now m.timeToIdle)
        tally := { m.tally with hits := m.tally.hits + 1 } })
    | none =>
      (.value none, { m with tally := { m.tally with misses := m.tally.misses + 1 } })
  | .contains k => (.truth (m.present? now k).isSome, m)
  | .keys => (.keys (m.keys now), m)
  | .size => (.count (m.keys now).length, m)

/-- What a run comes to: the replies in their order, the map and the reading of the clock after it. -/
structure Record (K : Type u) (V : Type v) where
  replies : List (MapReply K (Shared V))
  map : Expiring K V
  now : Nat

/-- What one turn after the other comes to, from a reading of the clock on. To purge does nothing, as
what is expired is absent already. -/
def run (m : Expiring K V) (now : Nat) : List (MapTurn K (Shared V)) → Record K V
  | [] => ⟨[], m, now⟩
  | .wait time :: turns => m.run (now + time) turns
  | .request r :: turns =>
    let rest := (m.serve now r).2.run now turns
    { rest with replies := (m.serve now r).1 :: rest.replies }
  | .purgeExpired :: turns => m.run now turns
  | .close :: turns => { m with entries := .empty }.run now turns

/-! ## Requests about one key -/

section

variable {m : Expiring K V} {now : Nat} {k : K} {value : Shared V} {stamps : Timestamps}

theorem serve_remove_present (h : m.present? now k = some (value, stamps)) :
    m.serve now (.remove k) = (.truth true, { m with
      entries := m.entries.erase k
      tally := { m.tally with removals := m.tally.removals + 1 } }) := by
  simp only [serve, h]

theorem serve_remove_absent (h : m.present? now k = none) :
    m.serve now (.remove k) = (.truth false, m) := by
  simp only [serve, h]

theorem serve_get_present (h : m.present? now k = some (value, stamps)) :
    m.serve now (.get k) = (.value (some value), { m with
      entries := m.entries.insert k (value, stamps.used now m.timeToIdle)
      tally := { m.tally with hits := m.tally.hits + 1 } }) := by
  simp only [serve, h]

theorem serve_get_absent (h : m.present? now k = none) :
    m.serve now (.get k) =
      (.value none, { m with tally := { m.tally with misses := m.tally.misses + 1 } }) := by
  simp only [serve, h]

end

/-! ## What is present -/

theorem present?_wait (m : Expiring K V) {now later : Nat} (hle : now ≤ later) (k : K) :
    m.present? later k = (m.present? now k).filter fun e => e.2.valid later m.timeToIdle := by
  unfold present?
  exact (filter_filter_of_imp (fun _ => Timestamps.valid_of_later hle) _).symm

theorem nodup_keys (m : Expiring K V) (now : Nat) : (m.keys now).Nodup :=
  m.entries.nodup_keys.filter _

theorem mem_keys (m : Expiring K V) (now : Nat) (k : K) :
    k ∈ m.keys now ↔ (m.present? now k).isSome = true := by
  unfold keys
  rw [List.mem_filter, Table.mem_keys, and_iff_right_of_imp]
  intro h
  unfold present? at h
  cases hget : m.entries.get? k with
  | none =>
    rw [hget] at h
    cases h
  | some e => exact Table.contains_of_get? hget

theorem present?_insert (m : Expiring K V) (now : Nat) (k k' : K) (e : Shared V × Timestamps)
    (tally : Tally) :
    ({ m with entries := m.entries.insert k e, tally := tally } : Expiring K V).present? now k' =
      if k' = k then (some e).filter fun e => e.2.valid now m.timeToIdle else m.present? now k' := by
  unfold present?
  rw [Table.get?_insert]
  split
  · rfl
  · rfl

theorem present?_erase (m : Expiring K V) (now : Nat) (k k' : K) (tally : Tally) :
    ({ m with entries := m.entries.erase k, tally := tally } : Expiring K V).present? now k' =
      if k' = k then none else m.present? now k' := by
  unfold present?
  rw [Table.get?_erase]
  split
  · rfl
  · rfl

end Expiring

end CacheLayer
