import CacheLayer.Backend

/-!
# No operation reads the counters

A cache with more misses counted answers, changes, tells and works on the world as it would without
them, and has as many more counted afterwards.

* `Metrics.missed`, `Backend.missed` : so many more misses counted.
* `Backend.insert_missed` and the like : an operation on that cache is the operation on the cache, with
  as many more misses counted at the end. For each kind of cache every function on the way has a lemma
  of its own, by the cases of its definition.
-/

namespace CacheLayer

universe u v w x

theorem Step.bind_mapState {σ : Type u} {ε : Type v} {α : Type w} {β : Type x} {x x' : Step σ ε α}
    {f : σ → σ} {g g' : α → σ → World → Step σ ε β}
    (hx : x' = x.mapState f)
    (hg : ∀ a s w, g' a (f s) w = (g a s w).mapState f) : x'.bind g' = (x.bind g).mapState f := by
  rw [hx]
  unfold bind
  dsimp only [mapState]
  rw [hg]
  rfl

/-- The counters with so many more misses. -/
def Metrics.missed (d : Nat) (m : Metrics) : Metrics := { m with misses := m.misses + d }

theorem Metrics.missed_missed (m : Metrics) (d d' : Nat) :
    (m.missed d).missed d' = m.missed (d + d') := by
  unfold missed
  simp only [Nat.add_assoc]

theorem Metrics.expired_missed (m : Metrics) (d : Nat) (x : Expiration) :
    (m.missed d).expired x = (m.expired x).missed d := by
  cases x <;> rfl

theorem Metrics.miss_missed (m : Metrics) (d : Nat) : (m.missed d).miss = m.miss.missed d := by
  unfold missed miss
  simp only [Nat.add_right_comm]

variable {K : Type u} {V : Type v}

/-! ## Memory over disk -/

namespace Overflow

def missed (d : Nat) (c : Overflow K V) : Overflow K V := { c with metrics := c.metrics.missed d }

theorem close_missed (c : Overflow K V) (d : Nat) (w : World) :
    (c.missed d).close w = (c.close w).mapState (missed d) := by
  obtain ⟨settings, entries, order, disk, keyIndex, metrics⟩ := c
  cases disk <;> rfl

variable [DecidableEq K]

theorem spill_missed (c : Overflow K V) (d : Nat) (w : World) (k : K) (e : Entry V) :
    (c.missed d).spill w k e = (c.spill w k e).mapState (missed d) := by
  obtain ⟨settings, entries, order, disk, keyIndex, metrics⟩ := c
  unfold spill missed expiration
  dsimp only
  cases e.stamps.expiration w.now settings.timeToIdle with
  | some x =>
    dsimp only
    rw [Metrics.expired_missed]
    rfl
  | none =>
    cases disk with
    | none => rfl
    | some disk =>
      dsimp only
      cases settings.codec.encode e.value.value with
      | error e => rfl
      | ok bytes =>
        dsimp only
        cases (disk.write w.area k bytes e.stamps.snapshot).answer <;> rfl

theorem spillAll_missed (ks : List K) (c : Overflow K V) (d : Nat) (w : World) :
    (c.missed d).spillAll w ks = (c.spillAll w ks).mapState (missed d) := by
  induction ks generalizing c w with
  | nil => rfl
  | cons k ks ih =>
    have hentries : (c.missed d).entries = c.entries := rfl
    rw [spillAll, spillAll, hentries]
    cases c.entries.get? k with
    | none => exact ih c w
    | some e =>
      dsimp only
      exact Step.bind_mapState (spill_missed { c with entries := c.entries.erase k } d w k e)
        fun _ c w => ih c w

theorem takeIn_missed (c : Overflow K V) (d : Nat) (w : World) (k : K) (e : Entry V) :
    (c.missed d).takeIn w k e = (c.takeIn w k e).mapState (missed d) :=
  spillAll_missed (Recency.trim c.settings.memoryBound.exceededBy
    (c.order.pushFront k e.weight).size (c.order.pushFront k e.weight)).2
    { c with
      order := (Recency.trim c.settings.memoryBound.exceededBy
        (c.order.pushFront k e.weight).size (c.order.pushFront k e.weight)).1
      entries := c.entries.insert k e
      keyIndex := c.keyIndex.insert k () } d w

theorem expireMemory_missed (c : Overflow K V) (d : Nat) (w : World) (k : K) :
    (c.missed d).expireMemory w k = (c.expireMemory w k).mapState (missed d) := by
  obtain ⟨settings, entries, order, disk, keyIndex, metrics⟩ := c
  unfold expireMemory missed expiration
  dsimp only
  cases entries.get? k with
  | none => rfl
  | some e =>
    dsimp only
    cases e.stamps.expiration w.now settings.timeToIdle with
    | none => rfl
    | some x =>
      dsimp only
      rw [Metrics.expired_missed]
      rfl

theorem expireDisk_missed (c : Overflow K V) (d : Nat) (w : World) (disk : DiskTier K) (k : K)
    (x : Expiration) :
    (c.missed d).expireDisk w disk k x = (c.expireDisk w disk k x).mapState (missed d) := by
  unfold expireDisk missed
  dsimp only
  rw [Metrics.expired_missed]
  rfl

theorem promote_missed (c : Overflow K V) (d : Nat) (w : World) (k : K) :
    (c.missed d).promote w k = (c.promote w k).mapState (missed d) := by
  obtain ⟨settings, entries, order, disk, keyIndex, metrics⟩ := c
  unfold promote
  dsimp only [missed]
  cases disk with
  | none => rfl
  | some disk =>
    dsimp only
    cases disk.expiration w.now settings.timeToIdle k with
    | some x =>
      exact congrArg (fun out => out.mapAnswer fun _ => none)
        (expireDisk_missed ⟨settings, entries, order, some disk, keyIndex, metrics⟩ d w disk k x)
    | none =>
      dsimp only
      cases disk.take w.area k with
      | none => rfl
      | some taken =>
        dsimp only
        cases taken.answer with
        | none => rfl
        | some found =>
          dsimp only
          cases settings.codec.read found.1 with
          | error e => rfl
          | ok v =>
            let shared := ({ w with area := taken.area } : World).share v
            let lifted : Overflow K V := ⟨settings, entries, order, some taken.tier, keyIndex,
              { metrics with diskHits := metrics.diskHits + 1 }⟩
            exact congrArg (fun out => out.mapAnswer fun _ => some shared.1)
              (lifted.takeIn_missed d shared.2 k
                ⟨shared.1, lifted.weigh v, lifted.touched shared.2 found.2⟩)

theorem find_missed (c : Overflow K V) (d : Nat) (w : World) (k : K) :
    (c.missed d).find w k = (c.find w k).mapState (missed d) := by
  obtain ⟨settings, entries, order, disk, keyIndex, metrics⟩ := c
  unfold find
  dsimp only [missed, expiration]
  cases entries.get? k with
  | none => exact promote_missed ⟨settings, entries, order, disk, keyIndex, metrics⟩ d w k
  | some e =>
    dsimp only
    cases e.stamps.expiration w.now settings.timeToIdle with
    | none => rfl
    | some x =>
      exact congrArg (fun out => out.mapAnswer fun _ => none)
        (expireMemory_missed ⟨settings, entries, order, disk, keyIndex, metrics⟩ d w k)

theorem get_missed (c : Overflow K V) (d : Nat) (w : World) (k : K) :
    (c.missed d).get w k = (c.get w k).mapState (missed d) := by
  unfold get
  rw [find_missed]
  dsimp only [Step.mapState, missed]
  cases (c.find w k).answer with
  | none =>
    rw [Option.isSome_none, if_neg Bool.false_ne_true, if_neg Bool.false_ne_true,
      Metrics.miss_missed]
  | some value => rfl

theorem insert_missed (c : Overflow K V) (d : Nat) (w : World) (k : K) (value : Shared V) :
    (c.missed d).insert w k value = (c.insert w k value).mapState (missed d) := by
  obtain ⟨settings, entries, order, disk, keyIndex, metrics⟩ := c
  unfold insert
  cases disk with
  | none =>
    exact congrArg (fun out => out.mapState fun c =>
        { c with metrics := { c.metrics with inserts := c.metrics.inserts + 1 } })
      (takeIn_missed ⟨settings, entries.erase k, order.remove k, none, keyIndex, metrics⟩ d w k _)
  | some disk =>
    exact congrArg (fun out => out.mapState fun c =>
        { c with metrics := { c.metrics with inserts := c.metrics.inserts + 1 } })
      (takeIn_missed ⟨settings, entries.erase k, order.remove k, some (disk.remove w.area k).tier,
        keyIndex, metrics⟩ d _ k _)

theorem remove_missed (c : Overflow K V) (d : Nat) (w : World) (k : K) :
    (c.missed d).remove w k = (c.remove w k).mapState (missed d) := by
  obtain ⟨settings, entries, order, disk, keyIndex, metrics⟩ := c
  unfold remove
  dsimp only [missed, expiration]
  cases entries.get? k with
  | some e =>
    dsimp only
    cases e.stamps.expiration w.now settings.timeToIdle with
    | none => rfl
    | some x =>
      dsimp only
      rw [Metrics.expired_missed]
      rfl
  | none =>
    cases disk with
    | none => rfl
    | some disk =>
      dsimp only
      cases (disk.remove w.area k).answer <;> rfl

theorem expireAllMemory_missed (ks : List K) (c : Overflow K V) (d : Nat) (w : World) :
    (c.missed d).expireAllMemory w ks = (c.expireAllMemory w ks).mapState (missed d) := by
  induction ks generalizing c w with
  | nil => rfl
  | cons k ks ih =>
    rw [expireAllMemory, expireAllMemory]
    exact Step.bind_mapState (c.expireMemory_missed d w k) fun _ c w => ih c w

theorem expireAllDisk_missed (expired : List (K × Expiration)) (c : Overflow K V) (d : Nat)
    (w : World) :
    (c.missed d).expireAllDisk w expired = (c.expireAllDisk w expired).mapState (missed d) := by
  induction expired generalizing c w with
  | nil => rfl
  | cons e rest ih =>
    have hdisk : (c.missed d).disk = c.disk := rfl
    rw [expireAllDisk, expireAllDisk, hdisk]
    cases c.disk with
    | none => rfl
    | some disk =>
      dsimp only
      exact Step.bind_mapState (c.expireDisk_missed d w disk e.1 e.2) fun _ c w => ih c w

theorem purgeExpired_missed (c : Overflow K V) (d : Nat) (w : World) :
    (c.missed d).purgeExpired w = (c.purgeExpired w).mapState (missed d) := by
  have htimeless : (c.missed d).timeless = c.timeless := rfl
  unfold purgeExpired
  rw [htimeless]
  cases c.timeless with
  | true => rfl
  | false =>
    rw [if_neg Bool.false_ne_true, if_neg Bool.false_ne_true]
    refine Step.bind_mapState (expireAllMemory_missed _ c d w) fun _ c w => ?_
    have hdisk : (c.missed d).disk = c.disk := rfl
    rw [hdisk]
    cases c.disk with
    | none => rfl
    | some disk => exact expireAllDisk_missed _ c d w

theorem keys_missed (c : Overflow K V) (d : Nat) (w : World) :
    (c.missed d).keys w = (c.keys w).mapState (missed d) := by
  unfold keys
  rw [purgeExpired_missed]
  rfl

theorem size_missed (c : Overflow K V) (d : Nat) (w : World) :
    (c.missed d).size w = (c.size w).mapState (missed d) := by
  unfold size
  rw [purgeExpired_missed]
  rfl

end Overflow

/-! ## In memory -/

namespace Volatile

def missed (d : Nat) (c : Volatile K V) : Volatile K V := { c with metrics := c.metrics.missed d }

def Change.missed {α : Type w} (d : Nat) (out : Change K V α) : Change K V α :=
  { out with cache := out.cache.missed d }

theorem foldl_expired_missed {α : Type w} (gone : List (α × Expiration)) (m : Metrics) (d : Nat) :
    gone.foldl (fun m g => m.expired g.2) (m.missed d) =
      (gone.foldl (fun m g => m.expired g.2) m).missed d := by
  induction gone generalizing m with
  | nil => rfl
  | cons g gone ih => rw [List.foldl_cons, List.foldl_cons, Metrics.expired_missed, ih]

theorem sweep_missed (c : Volatile K V) (d now i : Nat) :
    (c.missed d).sweep now i = (c.sweep now i).missed d := by
  have htimeless : (c.missed d).timeless = c.timeless := rfl
  unfold sweep
  rw [htimeless]
  cases c.timeless with
  | true => rfl
  | false =>
    show Change.mk _ _ _ = Change.mk _ _ _
    dsimp only [missed]
    rw [foldl_expired_missed]
    rfl

theorem sweepAll_missed (is : List Nat) (c : Volatile K V) (d now : Nat) :
    (c.missed d).sweepAll now is = (c.sweepAll now is).missed d := by
  induction is generalizing c with
  | nil => rfl
  | cons i is ih =>
    unfold sweepAll
    rw [sweep_missed]
    dsimp only [Change.missed]
    rw [ih]
    rfl

theorem purgeExpired_missed (c : Volatile K V) (d now : Nat) :
    (c.missed d).purgeExpired now = (c.purgeExpired now).missed d := c.sweepAll_missed _ d now

variable [DecidableEq K]

theorem insert_missed (c : Volatile K V) (d now : Nat) (k : K) (value : Shared V) :
    (c.missed d).insert now k value = (c.insert now k value).missed d := by
  obtain ⟨name, timeToLive, timeToIdle, hash, shards, generator, metrics⟩ := c
  unfold insert
  dsimp only [missed, store, setShard]
  cases (generator.shouldRun sweepPeriod).1 with
  | false => rfl
  | true =>
    rw [if_pos rfl, if_pos rfl]
    exact sweep_missed ⟨name, timeToLive, timeToIdle, hash, _, _,
      { metrics with inserts := metrics.inserts + 1 }⟩ d now _

theorem remove_missed (c : Volatile K V) (d now : Nat) (k : K) :
    (c.missed d).remove now k = (c.remove now k).missed d := by
  have hstored : (c.missed d).stored? k = c.stored? k := rfl
  unfold remove
  rw [hstored]
  cases c.stored? k with
  | none => rfl
  | some e =>
    have hexpiration : (c.missed d).expiration now e = c.expiration now e := rfl
    dsimp only
    rw [hexpiration]
    cases c.expiration now e with
    | none => rfl
    | some x =>
      dsimp only [missed]
      rw [Metrics.expired_missed]
      rfl

theorem get_missed (c : Volatile K V) (d now : Nat) (k : K) :
    (c.missed d).get now k = (c.get now k).missed d := by
  have hstored : (c.missed d).stored? k = c.stored? k := rfl
  unfold get
  rw [hstored]
  cases c.stored? k with
  | none =>
    dsimp only [missed]
    rw [Metrics.miss_missed]
    rfl
  | some e =>
    have hexpiration : (c.missed d).expiration now e = c.expiration now e := rfl
    dsimp only
    rw [hexpiration]
    cases c.expiration now e with
    | none =>
      obtain ⟨name, timeToLive, timeToIdle, hash, shards, generator, metrics⟩ := c
      cases timeToIdle <;> rfl
    | some x =>
      dsimp only [missed]
      rw [Metrics.expired_missed, Metrics.miss_missed]
      rfl

end Volatile

/-! ## With soft values -/

namespace Soft

def missed (d : Nat) (c : Soft K V) : Soft K V := { c with metrics := c.metrics.missed d }

def Change.missed {α : Type w} (d : Nat) (out : Change K V α) : Change K V α :=
  { out with cache := out.cache.missed d }

variable [DecidableEq K]

theorem purge_missed (c : Soft K V) (d : Nat) (w : World) (k : K) :
    (c.missed d).purge w k = (c.purge w k).missed d := by
  have hhandles : (c.missed d).handles = c.handles := rfl
  unfold purge
  rw [hhandles]
  cases c.handles.get? k with
  | none => rfl
  | some s =>
    have halive : (c.missed d).alive w s = c.alive w s := rfl
    dsimp only
    rw [halive]
    cases c.alive w s <;> rfl

theorem purgeAll_missed (ks : List K) (c : Soft K V) (d : Nat) (w : World) :
    (c.missed d).purgeAll w ks = (c.purgeAll w ks).missed d := by
  induction ks generalizing c with
  | nil => rfl
  | cons k ks ih =>
    rw [purgeAll, purgeAll, purge_missed]
    dsimp only [Change.missed]
    rw [ih]
    rfl

theorem sweep_missed (c : Soft K V) (d : Nat) (w : World) :
    (c.missed d).sweep w = (c.sweep w).missed d :=
  purgeAll_missed c.heap.drain.1 { c with heap := c.heap.drain.2 } d w

theorem insert_missed (c : Soft K V) (d : Nat) (w : World) (k : K) (value : Shared V) :
    (c.missed d).insert w k value = (c.insert w k value).missed d :=
  sweep_missed { c with
    heap := c.heap.retain k value
    handles := c.handles.insert k value
    metrics := { c.metrics with inserts := c.metrics.inserts + 1 } } d w

theorem remove_missed (c : Soft K V) (d : Nat) (w : World) (k : K) :
    (c.missed d).remove w k = (c.remove w k).missed d := by
  obtain ⟨name, handles, heap, metrics⟩ := c
  have halive (m : Metrics) : Soft.alive ⟨name, handles.erase k, (heap.release k).2, m⟩ w =
      (heap.release k).2.alive w := rfl
  unfold remove
  dsimp only [missed]
  rw [halive, halive]
  cases (heap.release k).1.or ((handles.get? k).filter ((heap.release k).2.alive w)) <;> rfl

theorem get_missed (c : Soft K V) (d : Nat) (w : World) (k : K) :
    (c.missed d).get w k = (c.get w k).missed d := by
  unfold get
  rw [sweep_missed]
  dsimp only [Change.missed]
  generalize (c.sweep w).cache = c
  have hhandles : (c.missed d).handles = c.handles := rfl
  rw [hhandles]
  cases c.handles.get? k with
  | none =>
    dsimp only [missed]
    rw [Metrics.miss_missed]
  | some s =>
    have halive : (c.missed d).alive w s = c.alive w s := rfl
    dsimp only
    rw [halive, purge_missed]
    cases c.alive w s with
    | true => rfl
    | false =>
      rw [if_neg Bool.false_ne_true, if_neg Bool.false_ne_true]
      dsimp only [missed, Change.missed]
      rw [Metrics.miss_missed]

theorem keys_missed (c : Soft K V) (d : Nat) (w : World) :
    (c.missed d).keys w = (c.keys w).missed d := by
  unfold keys
  rw [sweep_missed]
  rfl

end Soft

/-! ## Any cache -/

namespace Backend

/-- The cache with so many more misses counted, if it counts. -/
def missed (d : Nat) : Backend K V → Backend K V
  | overflow c => overflow (c.missed d)
  | volatile c => volatile (c.missed d)
  | soft c => soft (c.missed d)
  | absent name => absent name

theorem missed_missed (c : Backend K V) (d d' : Nat) :
    (c.missed d).missed d' = c.missed (d + d') := by
  cases c with
  | absent name => rfl
  | _ => simp only [missed, Overflow.missed, Volatile.missed, Soft.missed, Metrics.missed_missed]

theorem missed_zero (c : Backend K V) : c.missed 0 = c := by
  cases c <;> rfl

theorem metrics_missed (c : Backend K V) (d : Nat) :
    (c.missed d).metrics = c.metrics.map (Metrics.missed d) := by
  cases c <;> rfl

theorem close_missed (c : Backend K V) (d : Nat) (w : World) :
    (c.missed d).close w = (c.close w).mapState (missed d) := by
  cases c with
  | overflow c =>
    simp only [missed, close, Overflow.close_missed]
    rfl
  | _ => rfl

variable [DecidableEq K] (c : Backend K V) (d : Nat) (w : World) (k : K)

theorem insert_missed (value : Shared V) :
    (c.missed d).insert w k value = (c.insert w k value).mapState (missed d) := by
  cases c with
  | absent name => rfl
  | _ =>
    simp only [missed, insert, Overflow.insert_missed, Volatile.insert_missed, Soft.insert_missed]
    rfl

theorem remove_missed : (c.missed d).remove w k = (c.remove w k).mapState (missed d) := by
  cases c with
  | absent name => rfl
  | _ =>
    simp only [missed, remove, Overflow.remove_missed, Volatile.remove_missed, Soft.remove_missed]
    rfl

theorem get_missed : (c.missed d).get w k = (c.get w k).mapState (missed d) := by
  cases c with
  | absent name => rfl
  | _ =>
    simp only [missed, get, Overflow.get_missed, Volatile.get_missed, Soft.get_missed]
    rfl

theorem keys_missed : (c.missed d).keys w = (c.keys w).mapState (missed d) := by
  cases c with
  | overflow c =>
    simp only [missed, keys, Overflow.keys_missed]
    rfl
  | soft c =>
    simp only [missed, keys, Soft.keys_missed]
    rfl
  | _ => rfl

theorem size_missed : (c.missed d).size w = (c.size w).mapState (missed d) := by
  cases c with
  | overflow c =>
    simp only [missed, size, Overflow.size_missed]
    rfl
  | soft c => exact congrArg (Step.mapAnswer · List.length) (keys_missed (soft c) d w)
  | _ => rfl

theorem contains_missed : (c.missed d).contains w k = c.contains w k := by
  cases c <;> rfl

theorem purgeExpired_missed :
    (c.missed d).purgeExpired w = (c.purgeExpired w).map (·.mapState (missed d)) := by
  cases c with
  | overflow c =>
    simp only [missed, purgeExpired, Overflow.purgeExpired_missed]
    rfl
  | volatile c =>
    simp only [missed, purgeExpired, Volatile.purgeExpired_missed]
    rfl
  | _ => rfl

end Backend

end CacheLayer
