import CacheLayer.Duration

/-!
# Expiry stamps

An entry carries the reading at which it expires and the reading of its last use. Readings are
64-bit counts of nanoseconds; sums stop at the largest one instead of wrapping, so that a limit too
far away to be written never expires.
-/

namespace CacheLayer

def maxCount : Nat := 18446744073709551615

/-- The 64-bit count nearest to `n`. -/
def saturate (n : Nat) : Nat := min n maxCount

/-- Why an entry is no longer valid. -/
inductive Expiration where
  /-- Its time to live is over. -/
  | live
  /-- It was not used within its time to idle. -/
  | idle
  deriving DecidableEq, Repr

/-- When an entry expires and when it was last used; zero stands for "no limit". -/
structure Timestamps where
  expiresAt : Nat
  lastAccessed : Nat
  deriving DecidableEq, Repr, Inhabited

namespace Timestamps

/-- The stamps of an entry made when the clock shows `now`. -/
def create (now : Nat) (timeToLive timeToIdle : Option Duration) : Timestamps where
  expiresAt := match timeToLive with
    | some d => saturate (saturate now + saturate d.nanos)
    | none => 0
  lastAccessed := if timeToIdle.isSome then saturate now else 0

/-- The stamps that go with an entry to another tier. -/
def snapshot (t : Timestamps) : Timestamps := ⟨t.expiresAt, t.lastAccessed⟩

@[simp] theorem snapshot_eq (t : Timestamps) : t.snapshot = t := rfl

/-- The stamps after a use at `now`. -/
def touch (t : Timestamps) (now : Nat) : Timestamps := { t with lastAccessed := saturate now }

/-- Why an entry with these stamps is expired at `now`, if it is. -/
def expiration (t : Timestamps) (now : Nat) (timeToIdle : Option Duration) : Option Expiration :=
  if 0 < t.expiresAt ∧ t.expiresAt ≤ saturate now then some .live
  else match timeToIdle with
    | some d =>
      if saturate (t.lastAccessed + saturate d.nanos) ≤ saturate now then some .idle else none
    | none => none

end Timestamps

end CacheLayer
