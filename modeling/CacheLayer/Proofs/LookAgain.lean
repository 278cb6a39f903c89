import CacheLayer.Proofs.Counting
import CacheLayer.Proofs.Removal

/-!
# Looking a second time

A look-up that finds nothing may still change a cache: it drops an expired entry, or one whose file is
lost or whose object is dead. After that there is nothing left to drop, and a second look-up of the same
key finds nothing again and changes nothing but the counters.

* `Backend.uncounted` : a cache with its counters set back.
* `Backend.Orderly` : what the look-ups need of a cache; `Backend.Orderly.insert` and the like : every
  operation keeps it.
* `Backend.Orderly.get_again` : the second look-up counts one more miss, and that is all.
-/

namespace CacheLayer

variable {K : Type u} {V : Type v} [DecidableEq K]

/-! ## Over disk -/

namespace Overflow

/-- A key that is looked up in vain is in neither tier afterwards. -/
theorem Sound.vacant_of_missed {c : Overflow K V} (h : c.Sound) {w : World} {k : K}
    (hmissed : (c.find w k).answer = none) :
    (c.find w k).state.inMemory k = false ∧ (c.find w k).state.onDisk k = false := by
  have hwithout (t : DiskTier K) : (t.without k).contains k = false := by
    show (t.slots.erase k).contains k = false
    rw [Table.contains_erase]
    simp
  revert hmissed
  unfold find
  split
  · rename_i hget
    have hmemory := not_inMemory_of_get? hget
    -- what expired or cannot be read is taken off the disk by the very look-up that misses it
    unfold promote
    split
    · rename_i hdisk
      exact fun _ => ⟨hmemory, onDisk_of_none hdisk k⟩
    · rename_i t hdisk
      split
      · intro _
        refine ⟨hmemory, ?_⟩
        simp only [Step.mapAnswer, expireDisk, (h.disk t hdisk).remove_tier]
        exact hwithout t
      · split
        · rename_i htake
          refine fun _ => ⟨hmemory, ?_⟩
          rw [Step.pure, onDisk_of_disk hdisk]
          exact (DiskTier.take_eq_none_iff t w.area k).1 htake
        · rename_i taken htake
          have hgone : taken.tier.contains k = false := by
            rw [DiskTier.take_tier htake]
            exact hwithout t
          dsimp only
          split
          · exact fun _ => ⟨hmemory, hgone⟩
          · split
            · exact fun _ => ⟨hmemory, hgone⟩
            · intro hmissed
              cases hmissed
  · rename_i e hget
    split
    · intro _
      rw [Step.mapAnswer, expireMemory, hget]
      refine ⟨?_, h.not_onDisk hget⟩
      show (c.entries.erase k).contains k = false
      rw [Table.contains_erase]
      simp
    · intro hmissed
      cases hmissed

theorem get_of_absent {c : Overflow K V} (w : World) {k : K} (hmemory : c.inMemory k = false)
    (hdisk : c.onDisk k = false) :
    c.get w k = .pure none { c with metrics := c.metrics.miss } w := by
  rw [get_eq, find_of_absent w hmemory hdisk]
  rfl

end Overflow

/-! ## In memory -/

namespace Volatile

theorem stored?_of_missed {c : Volatile K V} {now : Nat} {k : K}
    (hmissed : (c.get now k).answer = none) : (c.get now k).cache.stored? k = none := by
  revert hmissed
  unfold get
  split
  · rename_i hstored
    exact fun _ => hstored
  · split
    · exact fun _ => (c.stored?_erase k k).trans (if_pos rfl)
    · intro hmissed
      cases hmissed

theorem get_of_not_stored {c : Volatile K V} (now : Nat) {k : K} (h : c.stored? k = none) :
    c.get now k = ⟨none, { c with metrics := c.metrics.miss }, []⟩ := by
  rw [get, h]

end Volatile

/-! ## With soft values -/

namespace Soft

theorem stored?_of_missed {c : Soft K V} {w : World} {k : K}
    (hmissed : (c.get w k).answer = none) :
    (c.get w k).cache.handles.get? k = none ∧ (c.get w k).cache.heap.queue = [] := by
  have hqueue : (c.sweep w).cache.heap.queue = [] :=
    congrArg SoftHeap.queue (heap_purgeAll _ _ w)
  revert hmissed
  unfold get
  dsimp only
  split
  · rename_i hstored
    exact fun _ => ⟨hstored, hqueue⟩
  · rename_i s hstored
    split
    · intro hmissed
      cases hmissed
    · rename_i hdead
      intro _
      refine ⟨?_, (congrArg SoftHeap.queue (heap_purge _ w k)).trans hqueue⟩
      show ((c.sweep w).cache.purge w k).cache.handles.get? k = none
      rw [purge, hstored]
      dsimp only
      rw [if_neg hdead, Table.get?_erase, if_pos rfl]

theorem get_of_not_stored {c : Soft K V} (w : World) {k : K} (h : c.handles.get? k = none)
    (hqueue : c.heap.queue = []) :
    c.get w k = ⟨none, { c with metrics := c.metrics.miss }, []⟩ := by
  have hswept : c.sweep w = ⟨(), c, []⟩ := by
    obtain ⟨name, handles, ⟨capacity, order, retained, queue⟩, metrics⟩ := c
    obtain rfl : queue = [] := hqueue
    rfl
  unfold get
  rw [hswept]
  simp only [h]

end Soft

/-! ## Any cache -/

namespace Backend

def uncounted : Backend K V → Backend K V
  | overflow c => overflow { c with metrics := .startedAt 0 }
  | volatile c => volatile { c with metrics := .startedAt 0 }
  | soft c => soft { c with metrics := .startedAt 0 }
  | absent name => absent name

/-- The tiers of a cache over disk are tied to each other; of other caches nothing is asked. -/
def Orderly : Backend K V → Prop
  | overflow c => c.Sound
  | _ => True

omit [DecidableEq K] in
theorem uncounted_missed (c : Backend K V) (d : Nat) : (c.missed d).uncounted = c.uncounted := by
  cases c <;> rfl

/-- A second look-up finds nothing again and changes nothing but the counters. -/
theorem Orderly.get_again {c : Backend K V} (h : c.Orderly) {w : World} {k : K}
    (hmissed : (c.get w k).answer = none) :
    (c.get w k).state.get (c.get w k).world k =
      .pure none ((c.get w k).state.missed 1) (c.get w k).world := by
  cases c with
  | overflow c =>
    obtain ⟨hmemory, hdisk⟩ := Overflow.Sound.vacant_of_missed h hmissed
    have hagain : (c.get w k).state.get (c.get w k).world k = _ :=
      Overflow.get_of_absent _ hmemory hdisk
    exact congrArg (Step.mapState · overflow) hagain
  | volatile c =>
    have hagain := Volatile.get_of_not_stored w.now (Volatile.stored?_of_missed hmissed)
    simp only [get, hagain]
    rfl
  | soft c =>
    obtain ⟨hstored, hqueue⟩ := Soft.stored?_of_missed hmissed
    have hagain := Soft.get_of_not_stored w hstored hqueue
    simp only [get, hagain]
    rfl
  | absent name => rfl

/-! ### Keeping a cache orderly -/

theorem Orderly.insert {c : Backend K V} (h : c.Orderly) (w : World) (k : K) (value : Shared V) :
    (c.insert w k value).state.Orderly := by
  cases c with
  | overflow c => exact Overflow.Sound.insert h w k value
  | _ => trivial

theorem Orderly.remove {c : Backend K V} (h : c.Orderly) (w : World) (k : K) :
    (c.remove w k).state.Orderly := by
  cases c with
  | overflow c => exact Overflow.Sound.remove h w k
  | _ => trivial

theorem Orderly.get {c : Backend K V} (h : c.Orderly) (w : World) (k : K) :
    (c.get w k).state.Orderly := by
  cases c with
  | overflow c => exact Overflow.Sound.get h w k
  | _ => trivial

theorem Orderly.keys {c : Backend K V} (h : c.Orderly) (w : World) :
    (c.keys w).state.Orderly := by
  cases c with
  | overflow c => exact Overflow.Sound.purgeExpired h w
  | _ => trivial

theorem Orderly.size {c : Backend K V} (h : c.Orderly) (w : World) :
    (c.size w).state.Orderly := by
  cases c with
  | overflow c => exact Overflow.Sound.purgeExpired h w
  | _ => trivial

theorem Orderly.purgeExpired {c : Backend K V} (h : c.Orderly) {w : World}
    {s : Step (Backend K V) (Eviction K V) Unit} (hs : c.purgeExpired w = some s) :
    s.state.Orderly := by
  cases c with
  | overflow c =>
    rw [← Option.some.inj hs]
    exact Overflow.Sound.purgeExpired h w
  | volatile c =>
    rw [← Option.some.inj hs]
    trivial
  | _ => cases hs

theorem orderly_close (c : Backend K V) (w : World) : (c.close w).state.Orderly := by
  cases c with
  | overflow c => exact Overflow.sound_close c w
  | _ => trivial

inductive Made (b : Builder) (st : Storage K V) (w : World) : Backend K V → World → Prop
  | overflow {c : Overflow K V} {w' : World} (hbuilt : b.buildOverflow st w = (.ok c, w')) :
    Made b st w (.overflow c) w'
  | volatile {c : Volatile K V} (hbuilt : b.buildVolatile st w = .ok c) : Made b st w (.volatile c) w
  | soft {c : Soft K V} (hbuilt : b.buildSoft w = .ok c) : Made b st w (.soft c) w
  | absent : Made b st w (.absent b.name) w

omit [DecidableEq K] in
theorem made_of_buildKind {b : Builder} {st : Storage K V} {w w' : World} {kind : CacheKind}
    {c : Backend K V} (h : b.buildKind st w kind = (.ok c, w')) : Made b st w c w' := by
  unfold Builder.buildKind at h
  cases kind with
  | diskOverflow =>
    dsimp only at h
    cases hbuilt : b.buildOverflow st w with
    | mk built w₁ =>
      rw [hbuilt] at h
      cases built with
      | error e => cases h
      | ok o =>
        cases h
        exact .overflow hbuilt
  | volatile =>
    dsimp only at h
    cases hbuilt : b.buildVolatile st w with
    | error e =>
      rw [hbuilt] at h
      cases h
    | ok v =>
      rw [hbuilt] at h
      cases h
      exact .volatile hbuilt
  | softReference =>
    dsimp only at h
    cases hbuilt : b.buildSoft w with
    | error e =>
      rw [hbuilt] at h
      cases h
    | ok v =>
      rw [hbuilt] at h
      cases h
      exact .soft hbuilt
  | noOp =>
    cases h
    exact .absent

theorem orderly_buildKind {b : Builder} {st : Storage K V} {w w' : World} {kind : CacheKind}
    {c : Backend K V} (h : b.buildKind st w kind = (.ok c, w')) : c.Orderly := by
  cases made_of_buildKind h with
  | overflow hbuilt => exact (Builder.built hbuilt).sound
  | _ => trivial

end Backend

end CacheLayer
