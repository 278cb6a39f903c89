import CacheLayer.Backend
import CacheLayer.Proofs.Overflow.Removal
import CacheLayer.Proofs.Soft
import CacheLayer.Proofs.Volatile

/-!
# Removing a key from a cache

Of every kind of cache, in every state that it can reach, a removal says whether its key was present,
takes it out and leaves what is seen of other keys.

Two things are special to one kind each. A cache over disk does not look at the stamps of what it
removes there. A soft cache keeps an object alive by retaining it under one of the keys that share it,
so the others lose it with that key.

* `Backend.seen` : what is seen of a key.
* `Backend.Reached` : the states that a cache can reach.
* `Backend.remove_tells` : what a removal does.
-/

namespace CacheLayer.Backend

variable {K : Type u} {V : Type v} [DecidableEq K]

def seen (w : World) (k : K) (c : Backend K V) : Bool × Option (Shared V) :=
  (c.contains w k, (c.get w k).answer)

/-- The states that a cache can reach, and the worlds around it. A cache in memory may be in any. -/
inductive Reached : Backend K V → World → Prop
  | overflow {b : Builder} {st : Storage K V} {w w' : World} {c : Overflow K V}
    (hbuilt : b.buildOverflow st w = (.ok c, w')) (turns : List (Overflow.Turn K V)) (wait : Nat) :
    Reached (.overflow (c.run w' turns).state) ((c.run w' turns).world.advance wait)
  | volatile (c : Volatile K V) (w : World) : Reached (.volatile c) w
  | soft {b : Builder} {w : World} {c : Soft K V} (hbuilt : b.buildSoft w = .ok c)
    (turns : List (World × Soft.Op K V)) (w' : World) : Reached (.soft (c.run turns).cache) w'

def expiredOnDisk (w : World) (k : K) : Backend K V → Bool
  | overflow c => c.expiredOnDisk w k
  | _ => false

/-- The object under `k'` is kept alive by a soft heap that retains it under `k` alone. -/
def LivesBy (w : World) (k k' : K) : Backend K V → Prop
  | soft c => c.LivesBy w k k'
  | _ => False

/-! ## What is seen after a removal -/

theorem seen_remove_volatile (c : Volatile K V) (w : World) (k k' : K) :
    Backend.seen w k' (.volatile (c.remove w.now k).cache) =
      if k' = k then (false, none) else Backend.seen w k' (.volatile c) := by
  show ((c.remove w.now k).cache.contains w.now k',
    ((c.remove w.now k).cache.get w.now k').answer) = _
  rw [Volatile.contains_remove, Volatile.get_remove]
  split
  · rename_i hk
    simp [hk]
  · rename_i hk
    rw [decide_eq_true hk, Bool.true_and]
    rfl

theorem seen_soft (c : Soft K V) (w : World) (k : K) :
    Backend.seen w k (.soft c) = ((c.live? w k).isSome, c.live? w k) := by
  show (c.contains w k, (c.get w k).answer) = _
  rw [Soft.contains_eq, Soft.get_answer]

/-! ## A spilled entry and a shared object -/

/-- A cache over disk in which the key 1 was spilled by the key 2. -/
def spilledPair : Step (Overflow Nat UInt8) (Overflow.Record Nat UInt8) Unit :=
  (pairCache (some ⟨100⟩) none).run pairWorld
    [⟨0, .request (.insert 1 ⟨0, 7⟩)⟩, ⟨0, .request (.insert 2 ⟨1, 8⟩)⟩]

theorem reached_spilledPair (wait : Nat) :
    Reached (.overflow spilledPair.state) (spilledPair.world.advance wait) :=
  .overflow (pair_built (some ⟨100⟩) none) _ wait

/-- A soft cache in which the keys 1 and 2 share an object; its heap has room for one. -/
def sharedPair : Soft Nat UInt8 :=
  ((Soft.make "pair" 1 0).run
    [({ bareWorld with held := [0] }, .request (.insert 1 ⟨0, 7⟩)),
      ({ bareWorld with held := [0] }, .request (.insert 2 ⟨0, 7⟩))]).cache

theorem reached_sharedPair (w : World) : Reached (.soft sharedPair) w := by
  have hbuilt : ({ pairBuilder none none with config := { softCapacity := some 1 } }).buildSoft
      bareWorld = .ok (Soft.make "pair" 1 0 : Soft Nat UInt8) := rfl
  exact .soft hbuilt _ w

theorem livesBy_sharedPair : (Backend.soft sharedPair).LivesBy bareWorld 2 1 := by
  have hretained : sharedPair.heap.retained = .insert .empty 2 ⟨0, 7⟩ := rfl
  refine ⟨⟨0, 7⟩, ⟨0, 7⟩, rfl, rfl, rfl, rfl, fun k s hk hget => ?_⟩
  rw [hretained, Table.get?_insert, if_neg hk] at hget
  cases hget

/-! ## Removing -/

/-- A removal says whether its key was present, unless the entry is an expired one on disk. Then the key
is gone, with the keys that lived by it, and other keys are seen as before. -/
theorem remove_tells {c : Backend K V} {w : World} (h : c.Reached w) (k : K) :
    (c.expiredOnDisk w k = false → (c.remove w k).answer = c.contains w k) ∧
      (c.remove w k).state.seen (c.remove w k).world k = (false, none) ∧
      ∀ k', k' ≠ k →
        (¬ c.LivesBy w k k' → (c.remove w k).state.seen (c.remove w k).world k' = c.seen w k') ∧
        (c.LivesBy w k k' → (c.remove w k).state.seen (c.remove w k).world k' = (false, none)) := by
  cases h with
  | @overflow b st w w' c hbuilt turns wait =>
    have hstart := Builder.built hbuilt
    have hsound := Overflow.sound_run (w := w') turns hstart.sound
    have hdated := Overflow.dated_run (w := w') hstart.sound (fun _ => hstart.everyStamp) turns
    have hseen := hsound.seen_remove hdated ((c.run w' turns).world.advance wait) k
    refine ⟨hsound.remove_answer hdated _ k, (hseen k).trans (if_pos rfl), fun k' hk => ?_⟩
    exact ⟨fun _ => (hseen k').trans (if_neg hk), nofun⟩
  | volatile c w =>
    have hseen := seen_remove_volatile c w k
    refine ⟨fun _ => c.remove_answer w.now k, (hseen k).trans (if_pos rfl), fun k' hk => ?_⟩
    exact ⟨fun _ => (hseen k').trans (if_neg hk), nofun⟩
  | @soft b w₀ c hbuilt turns w =>
    have htied := Soft.tied_run turns (Soft.tied_of_built hbuilt)
    refine ⟨fun _ => htied.remove_answer w k, ?_, fun k' hk => ⟨fun hspared => ?_, fun hlives => ?_⟩⟩
    · refine (seen_soft _ w k).trans ?_
      rw [Soft.live?_remove_self]
      rfl
    · refine (seen_soft _ w k').trans ?_
      rw [Soft.live?_remove hk hspared]
      exact (seen_soft _ w k').symm
    · refine (seen_soft _ w k').trans ?_
      rw [Soft.live?_remove_of_livesBy hlives]
      rfl

/-- A spilled entry is removed in time and spares the other key; a shared object is lost. -/
theorem remove_tells_pair :
    ((Backend.overflow spilledPair.state).remove (spilledPair.world.advance 99) 1).answer = true ∧
    ((Backend.overflow spilledPair.state).remove (spilledPair.world.advance 99) 1).state.seen
      ((Backend.overflow spilledPair.state).remove (spilledPair.world.advance 99) 1).world 2 =
      (true, some ⟨1, 8⟩) ∧
    ((Backend.soft sharedPair).remove bareWorld 2).answer = true ∧
    ((Backend.soft sharedPair).remove bareWorld 2).state.seen
      ((Backend.soft sharedPair).remove bareWorld 2).world 1 = (false, none) := by
  obtain ⟨hspilled, -, hother⟩ := remove_tells (reached_spilledPair 99) 1
  obtain ⟨hshared, -, hlost⟩ := remove_tells (reached_sharedPair bareWorld) 2
  refine ⟨(hspilled (by decide)).trans (by decide), ((hother 2 (by decide)).1 nofun).trans (by decide),
    (hshared rfl).trans (by decide), (hlost 1 (by decide)).2 livesBy_sharedPair⟩

/-- A cache over disk says that an expired entry was present there; a soft cache loses an object with
the key that it was retained under. -/
theorem remove_not_always_tells :
    (¬ ∀ (c : Backend Nat UInt8) (w : World), c.Reached w →
      ∀ k, (c.remove w k).answer = c.contains w k) ∧
    ¬ ∀ (c : Backend Nat UInt8) (w : World), c.Reached w → ∀ k k', k' ≠ k →
      (c.remove w k).state.contains (c.remove w k).world k' = c.contains w k' := by
  constructor
  · intro h
    have hstale := h _ _ (reached_spilledPair 100) 1
    revert hstale
    decide
  · intro h
    have hshared := h _ _ (reached_sharedPair bareWorld) 2 1 (by decide)
    revert hshared
    decide

end CacheLayer.Backend
