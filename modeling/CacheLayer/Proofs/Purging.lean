import CacheLayer.Backend
import CacheLayer.Proofs.Overflow.Expelling
import CacheLayer.Proofs.Volatile.Expelling

/-!
# Purging a cache

A purge takes out of a cache with timeouts what is expired, and nothing else: what is kept stays where
it is, as it is, and in the order that it had, and the same goes for its file.

* `Backend.Aged` : the states that a cache with timeouts can come to.
* `Backend.reason`, `Backend.atHand?`, `Backend.file?`, `Backend.keep` : why an entry is expired, what
  can be told of it, where its file lies, and a cache without others.
* `Backend.Purges` : what a purge does; `Backend.purge_drops_expired`.
-/

namespace CacheLayer

variable {K : Type u} {V : Type v} [DecidableEq K]

namespace Backend

/-- The states that a cache with timeouts can come to. -/
inductive Aged : Backend K V → Prop
  | overflow {b : Builder} {st : Storage K V} {w w' : World} {c : Overflow K V}
    (hbuilt : b.buildOverflow st w = (.ok c, w')) (turns : List (Overflow.Turn K V)) :
    Aged (.overflow (c.run w' turns).state)
  | volatile {b : Builder} {st : Storage K V} {w : World} {c : Volatile K V}
    (hbuilt : b.buildVolatile st w = .ok c) (turns : List (MapTurn K (Shared V))) :
    Aged (.volatile (c.run w.now turns).cache)

def reason (w : World) (k : K) : Backend K V → Option Expiration
  | overflow c => c.reason w k
  | volatile c => c.reason w.now k
  | _ => none

def atHand? (k : K) : Backend K V → Option (Shared V)
  | overflow c => c.atHand? k
  | volatile c => c.atHand? k
  | _ => none

def file? (k : K) : Backend K V → Option (Nat × String)
  | overflow c => c.file? k
  | _ => none

omit [DecidableEq K] in
/-- The cache with timeouts that keeps the keys that satisfy `p`, each where it is and as it is. -/
def keep (p : K → Bool) : Backend K V → Backend K V
  | overflow c => overflow (c.keep p)
  | volatile c => volatile (c.keep p)
  | c => c

omit [DecidableEq K] in
def withMetrics (m : Metrics) : Backend K V → Backend K V
  | overflow c => overflow { c with metrics := m }
  | volatile c => volatile { c with metrics := m }
  | soft c => soft { c with metrics := m }
  | absent name => absent name

/-- What a purge of `c` does. -/
structure Purges (c : Backend K V) (w : World) (s : Step (Backend K V) (Eviction K V) Unit) :
    Prop where
  /-- What is not expired is kept, and of the rest account is given. -/
  state : ∃ m m', c.metrics = some m ∧
    Accounts (fun k => c.reason w k) (fun k => c.atHand? k) m m' s.log ∧
      s.state = (c.keep fun k => (c.reason w k).isNone).withMetrics m'
  world : s.world = { w with area := s.world.area }
  /-- The files of what is expired are deleted, and no others. -/
  files : w.area.Without (fun file => ∃ k, (c.reason w k).isSome = true ∧ c.file? k = some file)
    s.world.area
  /-- What is kept has its file, with what is in it. -/
  own : ∀ k file, c.reason w k = none → c.file? k = some file →
    s.state.file? k = some file ∧ s.world.area.read file.1 file.2 = w.area.read file.1 file.2
  /-- There is nothing left for another purge. -/
  again : ∀ w', w'.now = w.now → s.state.purgeExpired w' = some (.pure () s.state w')

theorem purges_overflow {c : Overflow K V} (h : c.Sound) (hdated : c.Dated) (w : World) :
    Purges (.overflow c) w ((c.purgeExpired w).mapState overflow) := by
  have hstate := h.state_purgeExpired hdated w
  have hfiles := h.files_purgeExpired hdated w
  constructor
  case state =>
    refine ⟨c.metrics, _, rfl, ?_, congrArg overflow hstate⟩
    show Accounts (c.reason w) c.atHand? c.metrics _ (c.purgeExpired w).log
    rw [h.purgeExpired_eq hdated]
    exact (h.lists_due w).accounts c.atHand? c.metrics
  case world =>
    show (c.purgeExpired w).world = { w with area := (c.purgeExpired w).world.area }
    rw [h.purgeExpired_eq hdated]
    rfl
  case files => exact hfiles
  case own =>
    intro k file hkept hfile
    constructor
    · show (c.purgeExpired w).state.file? k = some file
      rw [hstate, ← hfile]
      exact c.file?_keep (Option.isNone_iff_eq_none.2 hkept)
    · refine hfiles.spared file fun hgone => ?_
      obtain ⟨k', hexpired, hfile'⟩ := hgone
      obtain rfl := h.file?_injective hfile hfile'
      rw [show c.reason w k = none from hkept] at hexpired
      cases hexpired
  case again =>
    intro w' hnow
    show some (((c.purgeExpired w).state.purgeExpired w').mapState overflow) = _
    rw [h.purgeExpired_again hdated hnow]
    rfl

theorem purges_volatile {c : Volatile K V} (h : c.Placed) (hdated : c.Dated) (w : World) :
    Purges (.volatile c) w
      ⟨(), volatile (c.purgeExpired w.now).cache, w, (c.purgeExpired w.now).events⟩ := by
  constructor
  case state =>
    refine ⟨c.metrics, _, rfl, ?_, congrArg volatile (h.cache_purgeExpired hdated w.now)⟩
    show Accounts (c.reason w.now) c.atHand? c.metrics _ (c.purgeExpired w.now).events
    rw [h.purgeExpired_eq hdated]
    exact (h.lists_due w.now).accounts c.atHand? c.metrics
  case world => rfl
  case files =>
    refine .refl (fun file hgone => ?_) w.area
    obtain ⟨k, -, hfile⟩ := hgone
    cases hfile
  case own => exact fun k file _ hfile => by cases hfile
  case again =>
    intro w' hnow
    show some (⟨(), volatile ((c.purgeExpired w.now).cache.purgeExpired w'.now).cache, w',
      ((c.purgeExpired w.now).cache.purgeExpired w'.now).events⟩ : Step _ _ _) = _
    rw [hnow, h.purgeExpired_again hdated]
    rfl

/-- A purge of a cache with timeouts, whatever happened to it and whatever the clock shows, drops what
is expired with its files, gives account of it, and leaves the rest as it is. -/
theorem purge_drops_expired {c : Backend K V} (h : c.Aged) (w : World) :
    ∃ s, c.purgeExpired w = some s ∧ Purges c w s := by
  cases h with
  | @overflow b st w₀ w₁ c hbuilt turns =>
    have hstart := Builder.built hbuilt
    have hsound := Overflow.sound_run (w := w₁) turns hstart.sound
    have hdated := Overflow.dated_run (w := w₁) hstart.sound (fun _ => hstart.everyStamp) turns
    exact ⟨_, rfl, purges_overflow hsound hdated w⟩
  | @volatile b st w₀ c hbuilt turns =>
    have hplaced := Volatile.placed_of_built hbuilt
    have hdated := Volatile.dated_run (Volatile.dated_of_built hbuilt) hplaced w₀.now turns
    exact ⟨_, rfl, purges_volatile (Volatile.placed_run hplaced w₀.now turns) hdated w⟩

/-- A cache in which the key 1, which expires at 100, was spilled by the key 2, which expires at 150. -/
def spilledOld : Backend Nat UInt8 :=
  .overflow ((pairCache (some ⟨100⟩) none).run pairWorld
    [⟨0, .request (.insert 1 ⟨0, 7⟩)⟩, ⟨50, .request (.insert 2 ⟨1, 8⟩)⟩]).state

/-- At 120 the entry on disk goes, with the first file, and the one in memory stays. -/
theorem purge_drops_expired_spilled :
    (∃ s, spilledOld.purgeExpired (pairWorld.advance 120) = some s ∧
      Purges spilledOld (pairWorld.advance 120) s) ∧
    spilledOld.reason (pairWorld.advance 120) 1 = some .live ∧
    spilledOld.reason (pairWorld.advance 120) 2 = none ∧
    spilledOld.file? 1 = some (0, DiskTier.fileName 0) :=
  ⟨purge_drops_expired (.overflow (pair_built _ _) _) _, by decide, by decide, by rfl⟩

end Backend

end CacheLayer
