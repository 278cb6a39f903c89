import CacheLayer.Timestamps

/-!
# What the stamps say

The stamps of an entry are two counts of 64 bits: sums stop at the largest count, and zero stands
for "no limit". Here they are held against the law they stand for, which knows nothing of either:
`Timestamps.due` adds exact numbers. The largest count does no harm, as no reading gets there. Zero
does: an entry made when the clock shows zero, with a time to live of zero, is taken for one without
a limit.

* `Timestamps.due` : why an entry is expired, in exact numbers.
* `Timestamps.Tells` : what the stamps have to say of an entry, whatever is done with it.
* `Tells.expiration` : stamps that do so expire by the law.
* `expiration_after` : an entry expires by the law after any number of uses and moves.
-/

namespace CacheLayer

/-- Sums that stop at the largest count compare as exact ones with a reading below it. -/
theorem saturate_add_le_iff {now : Nat} (start nanos : Nat) (hnow : now < maxCount) :
    saturate (saturate start + saturate nanos) ≤ saturate now ↔ start + nanos ≤ now := by
  simp only [saturate]
  omega

namespace Timestamps

inductive Handling where
  /-- The entry is used when the clock shows `now`. -/
  | touch (now : Nat)
  /-- The entry moves to another tier. -/
  | snapshot

def handle (t : Timestamps) : Handling → Timestamps
  | .touch now => t.touch now
  | .snapshot => t.snapshot

/-- The stamps after all of `history`, oldest first. -/
def after (t : Timestamps) (history : List Handling) : Timestamps := history.foldl handle t

/-- The reading of the last use of an entry made at `made`, which counts as one. -/
def lastUse (made : Nat) : List Handling → Nat
  | [] => made
  | .touch now :: history => lastUse now history
  | .snapshot :: history => lastUse made history

/-- Why an entry is expired at `now`, if it is: it was made at `made` and last used at `used`. -/
def due (timeToLive timeToIdle : Option Duration) (made used now : Nat) : Option Expiration :=
  if timeToLive.any fun d => made + d.nanos ≤ now then some .live
  else if timeToIdle.any fun d => used + d.nanos ≤ now then some .idle
  else none

/-- The time to live that the stamps of an entry made at `made` can tell from none: its end is not
zero. -/
def tellable (made : Nat) (timeToLive : Option Duration) : Option Duration :=
  timeToLive.filter fun d => 0 < made + d.nanos

/-- Only where the clock shows zero, a time to live of zero cannot be told from none. -/
theorem tellable_eq (made : Nat) (timeToLive : Option Duration) :
    tellable made timeToLive =
      if made = 0 ∧ timeToLive = some ⟨0⟩ then none else timeToLive := by
  cases timeToLive with
  | none => simp [tellable]
  | some d =>
    obtain ⟨nanos⟩ := d
    simp only [tellable, Option.filter_some, Option.some.injEq, Duration.mk.injEq,
      decide_eq_true_eq]
    split <;> split <;> first | rfl | omega

/-- The stamps of an entry made at `made` and last used at `used`. -/
structure Tells (t : Timestamps) (timeToLive timeToIdle : Option Duration) (made used : Nat) :
    Prop where
  expiresAt : t.expiresAt =
    (timeToLive.map fun d => saturate (saturate made + saturate d.nanos)).getD 0
  lastAccessed : timeToIdle.isSome → t.lastAccessed = saturate used

variable {t : Timestamps} {timeToLive timeToIdle : Option Duration} {made used now : Nat}

theorem tells_create :
    (create made timeToLive timeToIdle).Tells timeToLive timeToIdle made made where
  expiresAt := by cases timeToLive <;> simp [create]
  lastAccessed := by
    intro hidle
    simp only [create, hidle, if_true]

theorem Tells.touch (h : t.Tells timeToLive timeToIdle made used) (now : Nat) :
    (t.touch now).Tells timeToLive timeToIdle made now where
  expiresAt := h.expiresAt
  lastAccessed _ := rfl

theorem Tells.snapshot (h : t.Tells timeToLive timeToIdle made used) :
    t.snapshot.Tells timeToLive timeToIdle made used := by
  rw [snapshot_eq]
  exact h

theorem Tells.after (h : t.Tells timeToLive timeToIdle made used) (history : List Handling) :
    (t.after history).Tells timeToLive timeToIdle made (lastUse used history) := by
  induction history generalizing t used with
  | nil => exact h
  | cons handling history ih =>
    cases handling with
    | touch now => exact ih (h.touch now)
    | snapshot => exact ih h.snapshot

/-- The stamp of the time to live speaks for an end that is not zero. -/
theorem Tells.expiresAt_reached (h : t.Tells timeToLive timeToIdle made used)
    (hnow : now < maxCount) :
    (0 < t.expiresAt ∧ t.expiresAt ≤ saturate now) ↔
      (tellable made timeToLive).any (fun d => made + d.nanos ≤ now) = true := by
  rw [h.expiresAt]
  cases timeToLive with
  | none => simp [tellable]
  | some d =>
    have hpos : 0 < saturate (saturate made + saturate d.nanos) ↔ 0 < made + d.nanos := by
      simp only [saturate, maxCount]
      omega
    simp only [Option.map_some, Option.getD_some, hpos, saturate_add_le_iff made d.nanos hnow,
      tellable, Option.any_filter, Option.any_some, Bool.and_eq_true, decide_eq_true_eq]

theorem Tells.expiration (h : t.Tells timeToLive timeToIdle made used) (hnow : now < maxCount) :
    t.expiration now timeToIdle = due (tellable made timeToLive) timeToIdle made used now := by
  simp only [Timestamps.expiration, due, h.expiresAt_reached hnow]
  split
  · rfl
  · cases timeToIdle with
    | none => simp
    | some d =>
      have hused : t.lastAccessed = saturate used := h.lastAccessed rfl
      have hidle : saturate (t.lastAccessed + saturate d.nanos) ≤ saturate now ↔
          used + d.nanos ≤ now := by rw [hused, saturate_add_le_iff used d.nanos hnow]
      simp only [hidle, Option.any_some, decide_eq_true_eq]

/-- **An entry expires by the law, whatever uses and moves lie behind it**, but for one that is made
when the clock shows zero: then a time to live of zero never ends. -/
theorem expiration_after (timeToLive timeToIdle : Option Duration) (made : Nat)
    (history : List Handling) {now : Nat} (hnow : now < maxCount) :
    ((create made timeToLive timeToIdle).after history).expiration now timeToIdle =
      due (if made = 0 ∧ timeToLive = some ⟨0⟩ then none else timeToLive) timeToIdle made
        (lastUse made history) now := by
  rw [← tellable_eq]
  exact (tells_create.after history).expiration hnow

/-- An entry made at five, with a time to live beyond the largest count, is used at six, moved to
another tier, used again at nine, and idle from twelve on. -/
theorem expiration_after_moved :
    12 < maxCount ∧
      ((create 5 (some ⟨maxCount⟩) (some ⟨3⟩)).after
        [.touch 6, .snapshot, .touch 9, .snapshot]).expiration 12 (some ⟨3⟩) = some .idle := by
  have hnow : 12 < maxCount := by decide
  have hdue := expiration_after (some ⟨maxCount⟩) (some ⟨3⟩) 5
    [.touch 6, .snapshot, .touch 9, .snapshot] hnow
  refine ⟨hnow, hdue.trans ?_⟩
  decide

/-- A time to live of zero that begins when the clock shows zero is over at once, and the stamps do
not tell. -/
theorem zero_life_overlooked :
    due (some ⟨0⟩) none 0 (lastUse 0 []) 0 = some .live ∧
      ((create 0 (some ⟨0⟩) none).after []).expiration 0 none = none := by
  decide

end Timestamps

end CacheLayer
