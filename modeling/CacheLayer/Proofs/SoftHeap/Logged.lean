import CacheLayer.Proofs.Lru
import CacheLayer.Proofs.SoftHeap

/-!
# A soft heap is a bounded map with a log

A soft heap is held against something simpler: a map that forgets what was used longest ago, with a
log of the keys whose values it gave up. The heap has no log. It has a queue that is emptied now and
then, and the log is what was taken out of the queue followed by what still waits there.

* `GaveUp` : a heap without its oldest values; `reclaim_spec` : what a reclaim comes to.
* `Logged` : the map with its log, and what each call does to it.
* `Drained` : a heap with what was drained off it.
* `Represents` : a heap and a map that belong together; `Represents.after` : one call.
* `logs_as_lru` : they belong together after any calls.
-/

namespace CacheLayer.SoftHeap

variable {K : Type u} {V : Type v} [DecidableEq K]

/-! ## Giving up on request -/

/-- `h'` is `h` without its `count` oldest values, whose keys wait in the queue. -/
structure GaveUp (count : Nat) (h h' : SoftHeap K V) : Prop where
  capacity : h'.capacity = h.capacity
  order : h'.order.keys = h.order.keys.take (h.size - count)
  retained : ∀ k, h'.retained.get? k =
    if k ∈ h.order.keys.drop (h.size - count) then none else h.retained.get? k
  queue : h'.queue = h.queue ++ (h.order.keys.drop (h.size - count)).reverse

omit [DecidableEq K] in
theorem length_order_keys (h : SoftHeap K V) : h.order.keys.length = h.size := h.order.length_keys

theorem gaveUp_none {h : SoftHeap K V} {count : Nat} (hnone : h.size - count = h.size) :
    h.GaveUp count h := by
  have hlength := h.length_order_keys
  refine ⟨rfl, ?_, fun k => ?_, ?_⟩
  · rw [hnone, List.take_of_length_le (Nat.le_of_eq hlength)]
  · rw [hnone, List.drop_of_length_le (Nat.le_of_eq hlength)]
    simp
  · rw [hnone, List.drop_of_length_le (Nat.le_of_eq hlength)]
    simp

theorem Sound.dropOldest_eq {h rest : SoftHeap K V} {dropped : Nat} (hsound : h.Sound)
    (hdrop : h.dropOldest = some (dropped, rest)) :
    ∃ k, dropped = 1 ∧ h.order.keys = rest.order.keys ++ [k] ∧
      rest.retained = h.retained.erase k ∧ rest.queue = h.queue ++ [k] := by
  obtain ⟨⟨⟨k, weight⟩, order⟩, hpop, hrest⟩ := Option.map_eq_some_iff.1 hdrop
  obtain ⟨-, -, hkeys⟩ := hsound.order.popBack_eq hpop
  have hlisted : k ∈ h.order.keys := by simp [hkeys]
  obtain ⟨hdropped, rfl⟩ := Prod.mk.inj hrest
  have hcontains : h.retained.contains k = true := (hsound.listed k).1 hlisted
  refine ⟨k, ?_, hkeys, rfl, rfl⟩
  rw [← hdropped]
  simp [hcontains]

/-- To give up the oldest value and then more is to give them all up. -/
theorem GaveUp.cons {h rest last : SoftHeap K V} {count : Nat} {k : K}
    (hlater : rest.GaveUp count last) (hcapacity : rest.capacity = h.capacity)
    (hkeys : h.order.keys = rest.order.keys ++ [k])
    (hretained : rest.retained = h.retained.erase k) (hqueue : rest.queue = h.queue ++ [k]) :
    h.GaveUp (count + 1) last := by
  have hsize : h.size = rest.size + 1 := by
    rw [← length_order_keys, ← length_order_keys, hkeys, List.length_append, List.length_singleton]
  have hcount : h.size - (count + 1) = rest.size - count := by omega
  have hwithin : rest.size - count ≤ rest.order.keys.length := by
    rw [length_order_keys]
    omega
  have hdrop : h.order.keys.drop (rest.size - count) =
      rest.order.keys.drop (rest.size - count) ++ [k] := by
    rw [hkeys, List.drop_append_of_le_length hwithin]
  refine ⟨hlater.capacity.trans hcapacity, ?_, fun k' => ?_, ?_⟩
  · rw [hlater.order, hcount, hkeys, List.take_append_of_le_length hwithin]
  · rw [hlater.retained, hretained, Table.get?_erase, hcount, hdrop]
    by_cases hk : k' = k <;> simp [hk]
  · rw [hlater.queue, hqueue, hcount, hdrop]
    simp

theorem reclaimFrom_spec {h : SoftHeap K V} (hsound : h.Sound) (fuel count : Nat)
    (hfuel : h.size ≤ fuel) :
    (reclaimFrom fuel count h).1 = min count h.size ∧
      h.GaveUp count (reclaimFrom fuel count h).2 := by
  induction fuel generalizing count h with
  | zero =>
    have hempty : h.size = 0 := by omega
    exact ⟨by simp [reclaimFrom, hempty], gaveUp_none (by omega)⟩
  | succ fuel ih =>
    rw [reclaimFrom]
    split
    · rename_i hcount
      exact ⟨by simp [hcount], gaveUp_none (by omega)⟩
    · rename_i hcount
      split
      · rename_i hdrop
        have hkeys : h.order.keys = [] :=
          (h.order.popBack_eq_none_iff).1 (Option.map_eq_none_iff.1 hdrop)
        have hempty : h.size = 0 := by rw [← length_order_keys, hkeys, List.length_nil]
        exact ⟨by simp [hempty], gaveUp_none (by omega)⟩
      · rename_i dropped rest hdrop
        obtain ⟨hrest, hcapacity⟩ := hsound.dropOldest hdrop
        obtain ⟨k, rfl, hkeys, hretained, hqueue⟩ := hsound.dropOldest_eq hdrop
        have hsize : h.size = rest.size + 1 := by
          rw [← length_order_keys, ← length_order_keys, hkeys, List.length_append,
            List.length_singleton]
        obtain ⟨hnumber, hgave⟩ := ih hrest (count - 1) (by omega)
        have hall := hgave.cons hcapacity hkeys hretained hqueue
        rw [Nat.sub_add_cancel (by omega : 1 ≤ count)] at hall
        exact ⟨by dsimp only; omega, hall⟩

theorem reclaim_spec {h : SoftHeap K V} (hsound : h.Sound) (count : Nat) :
    (h.reclaim count).1 = min count h.size ∧ h.GaveUp count (h.reclaim count).2 :=
  reclaimFrom_spec hsound h.size count (Nat.le_refl _)

/-! ## The map and its log -/

inductive Call (K : Type u) (V : Type v) where
  | retain (k : K) (s : Shared V)
  | other (op : Op K)

/-- A map that forgets what was retained or touched longest ago, and the keys whose values it gave
up since it was last cleared, in that order. -/
structure Logged (K : Type u) (V : Type v) where
  map : Lru K (Shared V)
  departed : List K

namespace Logged

omit [DecidableEq K] in
def giveUp (l : Logged K V) (count : Nat) : Logged K V :=
  let kept := l.map.items.length - count
  ⟨{ l.map with items := l.map.items.take kept }, l.departed ++ (l.map.keys.drop kept).reverse⟩

/-- Only what is beyond the capacity, and what is reclaimed, is logged. -/
def after (l : Logged K V) : Call K V → Logged K V
  | .retain k s =>
    let cut := (l.map.toFront k s).settle
    ⟨cut.1, l.departed ++ cut.2.map Prod.fst⟩
  | .other (.touch k) =>
    match l.map.find? k with
    | some s => { l with map := l.map.toFront k s }
    | none => l
  | .other (.release k) => { l with map := l.map.without k }
  | .other (.reclaim count) => l.giveUp count
  | .other .reclaimAll => l.giveUp l.map.items.length
  | .other .drain => l
  | .other .clear => ⟨.empty l.map.capacity, []⟩

def run (l : Logged K V) (calls : List (Call K V)) : Logged K V := calls.foldl after l

end Logged

/-- A heap, and what was drained off it since it was last cleared. -/
structure Drained (K : Type u) (V : Type v) where
  heap : SoftHeap K V
  drained : List K

namespace Drained

def after (d : Drained K V) : Call K V → Drained K V
  | .retain k s => { d with heap := d.heap.retain k s }
  | .other .drain => ⟨d.heap.drain.2, d.drained ++ d.heap.drain.1⟩
  | .other .clear => ⟨d.heap.clear, []⟩
  | .other op => { d with heap := d.heap.apply op }

def run (d : Drained K V) (calls : List (Call K V)) : Drained K V := calls.foldl after d

end Drained

/-! ## Side by side -/

/-- The heap is the map, and what was drained with what is queued is the log. -/
structure Represents (d : Drained K V) (l : Logged K V) : Prop where
  sound : d.heap.Sound
  /-- The capacity is one that can be counted, so that everything there is can be asked for. -/
  countable : d.heap.capacity ≤ maxCount
  capacity : l.map.capacity = d.heap.capacity
  order : l.map.keys = d.heap.order.keys
  values : ∀ k, l.map.find? k = d.heap.retained.get? k
  log : l.departed = d.drained ++ d.heap.queue

namespace Represents

variable {d : Drained K V} {l : Logged K V}

theorem length_items (h : Represents d l) : l.map.items.length = d.heap.size := by
  rw [← length_order_keys, ← h.order, Lru.keys, List.length_map]

theorem nodup_keys (h : Represents d l) : l.map.keys.Nodup := h.order ▸ h.sound.order.nodup_keys

theorem retain (h : Represents d l) (k : K) (s : Shared V) :
    Represents (d.after (.retain k s)) (l.after (.retain k s)) := by
  obtain ⟨hkeys, -, hcapacity, hretained⟩ := retain_spec h.sound.order k s
  have hqueue := queue_retain h.sound.order k s
  have hfront : (l.map.toFront k s).keys =
      k :: d.heap.order.keys.filter fun k' => decide (k' ≠ k) := by
    rw [Lru.keys_toFront, h.order]
  have hroom : (l.map.toFront k s).capacity = d.heap.capacity := h.capacity
  have hnodup : (l.map.toFront k s).keys.Nodup := by
    rw [hfront, ← Recency.keys_pushFront d.heap.order k 1]
    exact (h.sound.order.pushFront k 1).nodup_keys
  refine ⟨(h.sound.retain k s).1, Nat.le_trans (Nat.le_of_eq hcapacity) h.countable,
    h.capacity.trans hcapacity.symm, ?_, fun k' => ?_, ?_⟩
  · exact (Lru.keys_settle _).trans (by rw [hfront, hroom, ← hkeys]; rfl)
  · refine (Lru.find?_settle hnodup k').trans ?_
    rw [hfront, hroom, Lru.find?_toFront, h.values]
    exact (hretained k').symm
  · show l.departed ++ (l.map.toFront k s).settle.2.map Prod.fst =
      d.drained ++ (d.heap.retain k s).queue
    rw [Lru.evicted_settle, hfront, hroom, hqueue, h.log, List.append_assoc]

theorem touch (h : Represents d l) (k : K) :
    Represents (d.after (.other (.touch k))) (l.after (.other (.touch k))) := by
  have hsound := h.sound.touch k
  have hmem := l.map.isSome_find? k
  show Represents { d with heap := d.heap.touch k } (match l.map.find? k with
    | some s => { l with map := l.map.toFront k s }
    | none => l)
  cases hfind : l.map.find? k with
  | none =>
    have hnot : k ∉ d.heap.order.keys := h.order ▸ (l.map.find?_eq_none_iff k).1 hfind
    have hsame : d.heap.order.moveToFront k = d.heap.order := by
      rw [Recency.moveToFront, (d.heap.order.weight?_eq_none_iff k).2 hnot]
    exact ⟨hsound, h.countable, h.capacity, h.order.trans (congrArg Recency.keys hsame).symm,
      h.values, h.log⟩
  | some s =>
    have hlisted : k ∈ d.heap.order.keys := h.order ▸ Lru.mem_keys_of_find? hfind
    refine ⟨hsound, h.countable, h.capacity, ?_, fun k' => ?_, h.log⟩
    · exact (l.map.keys_toFront k s).trans
        (by rw [h.order]; exact (Recency.keys_moveToFront hlisted).symm)
    · exact (Lru.find?_toFront_of_find? hfind k').trans (h.values k')

theorem release (h : Represents d l) (k : K) :
    Represents (d.after (.other (.release k))) (l.after (.other (.release k))) where
  sound := h.sound.without k d.heap.queue
  countable := h.countable
  capacity := h.capacity
  order := by
    show (l.map.without k).keys = (d.heap.order.remove k).keys
    rw [Lru.keys_without, Recency.keys_remove, h.order]
  values k' := by
    show (l.map.without k).find? k' = (d.heap.retained.erase k).get? k'
    rw [Lru.find?_without, Table.get?_erase, h.values]
  log := h.log

theorem giveUp (h : Represents d l) {count : Nat} {heap : SoftHeap K V} (hsound : heap.Sound)
    (hgave : d.heap.GaveUp count heap) : Represents { d with heap } (l.giveUp count) where
  sound := hsound
  countable := Nat.le_trans (Nat.le_of_eq hgave.capacity) h.countable
  capacity := h.capacity.trans hgave.capacity.symm
  order := by
    show (l.map.items.take (l.map.items.length - count)).map Prod.fst = heap.order.keys
    rw [hgave.order, List.map_take, h.length_items, ← h.order]
    rfl
  values k := by
    have hkept := Lru.find?_settle
      (show ({ l.map with capacity := l.map.items.length - count } : Lru K (Shared V)).keys.Nodup
        from h.nodup_keys) k
    refine hkept.trans ?_
    show (if k ∈ l.map.keys.drop (l.map.items.length - count) then none else l.map.find? k) = _
    rw [hgave.retained, h.length_items, h.order, h.values]
  log := by
    show l.departed ++ (l.map.keys.drop (l.map.items.length - count)).reverse =
      d.drained ++ heap.queue
    rw [hgave.queue, h.log, h.length_items, h.order, List.append_assoc]

theorem size_le (h : Represents d l) : d.heap.size ≤ maxCount :=
  Nat.le_trans h.sound.fits h.countable

theorem reclaimAll (h : Represents d l) :
    Represents (d.after (.other .reclaimAll)) (l.after (.other .reclaimAll)) := by
  obtain ⟨hcapacity, horder, hretained, hqueue⟩ := (reclaim_spec h.sound maxCount).2
  have hnothing : d.heap.size - maxCount = d.heap.size - l.map.items.length := by
    rw [h.length_items, Nat.sub_self, Nat.sub_eq_zero_of_le h.size_le]
  rw [hnothing] at horder hretained hqueue
  exact h.giveUp (h.sound.apply .reclaimAll).1 ⟨hcapacity, horder, hretained, hqueue⟩

theorem after (h : Represents d l) (call : Call K V) :
    Represents (d.after call) (l.after call) := by
  cases call with
  | retain k s => exact h.retain k s
  | other op =>
    cases op with
    | touch k => exact h.touch k
    | release k => exact h.release k
    | reclaim count =>
      exact h.giveUp (h.sound.apply (.reclaim count)).1 (reclaim_spec h.sound count).2
    | reclaimAll => exact h.reclaimAll
    | drain =>
      refine ⟨h.sound.drain, h.countable, h.capacity, h.order, h.values, ?_⟩
      show l.departed = (d.drained ++ d.heap.queue) ++ []
      rw [List.append_nil, h.log]
    | clear => exact ⟨sound_ofCapacity _, h.countable, h.capacity, rfl, fun _ => rfl, rfl⟩

theorem run (h : Represents d l) (calls : List (Call K V)) :
    Represents (d.run calls) (l.run calls) := by
  induction calls generalizing d l with
  | nil => exact h
  | cons call calls ih => exact ih (h.after call)

end Represents

/-! ## The heap as a map with a log -/

/-- What a heap shows of itself is what the map with the log has. -/
structure LogsAsLru (d : Drained K V) (l : Logged K V) : Prop where
  /-- The order and the retained values have the same keys. -/
  sameKeys : d.heap.retained.keys.Perm d.heap.order.keys
  fits : d.heap.size ≤ l.map.capacity
  order : d.heap.order.keys = l.map.keys
  values : ∀ k, d.heap.retained.get? k = l.map.find? k
  /-- What was drained since the last clear, and then what is queued, are the keys given up since
  then. -/
  log : d.drained ++ d.heap.queue = l.departed
  released : ∀ k, (d.heap.release k).1 = l.map.find? k
  reclaimed : ∀ count, (d.heap.reclaim count).1 = min count d.heap.size
  reclaimedAll : d.heap.reclaimAll.1 = d.heap.size

theorem Represents.logsAsLru {d : Drained K V} {l : Logged K V} (h : Represents d l) :
    LogsAsLru d l where
  sameKeys := Table.keys_perm h.sound.order.nodup_keys fun k => (h.sound.listed k).symm
  fits := h.capacity ▸ h.sound.fits
  order := h.order.symm
  values k := (h.values k).symm
  log := h.log.symm
  released k := (h.values k).symm
  reclaimed count := (reclaim_spec h.sound count).1
  reclaimedAll := (reclaim_spec h.sound maxCount).1.trans (Nat.min_eq_right h.size_le)

/-- **A soft heap is a bounded map that forgets what was used longest ago, with a log.** What is
drained off it between two clears, and what still waits, are the keys of the values that it gave up,
each as often as it did and in that order; a value that was replaced, released or cleared is not
among them. -/
theorem logs_as_lru (capacity : Nat) (hcapacity : capacity ≤ maxCount) (calls : List (Call K V)) :
    LogsAsLru (Drained.run ⟨.ofCapacity capacity, []⟩ calls)
      (Logged.run ⟨.empty capacity, []⟩ calls) := by
  have hfirst : Represents (⟨.ofCapacity capacity, []⟩ : Drained K V) ⟨.empty capacity, []⟩ :=
    ⟨sound_ofCapacity capacity, hcapacity, rfl, rfl, fun _ => rfl, rfl⟩
  exact (hfirst.run calls).logsAsLru

/-- Retains one, two and three with room for two, touching one in between; then two again, which
pushes out one; drains; gives three back; and reclaims what is left. -/
def crowded : List (Call Nat Char) :=
  [.retain 1 ⟨0, 'a'⟩, .retain 2 ⟨1, 'b'⟩, .other (.touch 1), .retain 3 ⟨2, 'c'⟩,
    .retain 2 ⟨3, 'd'⟩, .other .drain, .other (.release 3), .other (.reclaim 5)]

/-- Two leaves the heap twice, and is listed before and after the drain. -/
theorem logs_as_lru_crowded :
    2 ≤ maxCount ∧
      let last := Drained.run ⟨.ofCapacity 2, []⟩ crowded
      last.drained = [2, 1] ∧ last.drained ++ last.heap.queue = [2, 1, 2] := by
  have hcapacity : 2 ≤ maxCount := by decide
  exact ⟨hcapacity, by decide, (logs_as_lru 2 hcapacity crowded).log.trans (by decide)⟩

end CacheLayer.SoftHeap
