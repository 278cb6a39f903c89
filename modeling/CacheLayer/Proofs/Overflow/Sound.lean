import CacheLayer.Overflow.Basic
import CacheLayer.Proofs.Overflow.Disk

/-!
# The two tiers together

`Overflow.Sound` ties the five parts of a two-tier cache to each other: entries and recency list of
the memory tier, slots and recency list of the disk tier, and the key index. Operations take an entry
out of the tiers and then put it somewhere else or forget it; `Overflow.Vacant` is what holds in
between, when one key is in neither tier and the index may still know it.

* `Sound.dropMemory`, `Sound.dropBoth`, `Sound.dropDisk` : taking an entry out leaves its key vacant.
* `Vacant.forget`, `Vacant.atFront`, `Vacant.written` : a vacant key is forgotten, or put into the
  memory tier or the disk tier.
-/

namespace CacheLayer.Overflow

variable {K : Type u} {V : Type v} [DecidableEq K]

/-- Each tier is in order by itself, with the weights of its entries, and no key is in both. -/
structure Tidy (c : Overflow K V) : Prop where
  order : c.order.Sound
  weights : ∀ k, c.order.weight? k = (c.entries.get? k).map Entry.weight
  disk : ∀ t, c.disk = some t → t.Sound
  apart : ∀ k, c.inMemory k = true → c.onDisk k = false

/-- The tiers are tidy and the index knows the keys of both. -/
structure Sound (c : Overflow K V) : Prop extends Tidy c where
  index : ∀ k, c.keyIndex.contains k = (c.inMemory k || c.onDisk k)

/-- The tiers are tidy, none holds `k`, and the index knows all other keys of both. -/
structure Vacant (c : Overflow K V) (k : K) : Prop extends Tidy c where
  notInMemory : c.inMemory k = false
  notOnDisk : c.onDisk k = false
  index : ∀ k', k' ≠ k → c.keyIndex.contains k' = (c.inMemory k' || c.onDisk k')

theorem sound_make (settings : OverflowSettings V) (disk : Option (DiskTier K)) (now : Nat)
    (hdisk : ∀ t, disk = some t → t.Sound ∧ ∀ k, t.contains k = false) :
    (make settings disk now).Sound where
  order := Recency.sound_empty
  weights k := rfl
  disk t ht := (hdisk t ht).1
  apart k h := by cases h
  index k := by
    cases disk with
    | none => rfl
    | some t => exact ((hdisk t rfl).2 k).symm

/-! ## Membership -/

theorem inMemory_of_get? {c : Overflow K V} {k : K} {e : Entry V}
    (h : c.entries.get? k = some e) : c.inMemory k = true := Table.contains_of_get? h

theorem not_inMemory_of_get? {c : Overflow K V} {k : K} (h : c.entries.get? k = none) :
    c.inMemory k = false := by simp [inMemory, Table.contains, h]

theorem get?_of_not_inMemory {c : Overflow K V} {k : K} (h : c.inMemory k = false) :
    c.entries.get? k = none := Table.get?_eq_none_of_contains h

theorem onDisk_of_disk {c : Overflow K V} {t : DiskTier K} (h : c.disk = some t) (k : K) :
    c.onDisk k = t.contains k := by simp [onDisk, h]

theorem onDisk_of_none {c : Overflow K V} (h : c.disk = none) (k : K) : c.onDisk k = false := by
  simp [onDisk, h]

theorem Tidy.mem_order {c : Overflow K V} (h : c.Tidy) (k : K) :
    k ∈ c.order.keys ↔ c.inMemory k = true := by
  have hlisted := Recency.isSome_weight? c.order k
  rw [h.weights, Option.isSome_map] at hlisted
  rw [inMemory, Table.contains, hlisted]
  simp

theorem Sound.not_onDisk {c : Overflow K V} (h : c.Sound) {k : K} {e : Entry V}
    (he : c.entries.get? k = some e) : c.onDisk k = false := h.apart k (inMemory_of_get? he)

/-! ## Taking entries out -/

def dropMemory (c : Overflow K V) (k : K) : Overflow K V :=
  { c with entries := c.entries.erase k, order := c.order.remove k }

def dropDisk (c : Overflow K V) (k : K) : Overflow K V :=
  { c with disk := c.disk.map fun t => t.without k }

def forget (c : Overflow K V) (k : K) : Overflow K V :=
  { c with keyIndex := c.keyIndex.erase k }

theorem inMemory_dropMemory (c : Overflow K V) (k k' : K) :
    (c.dropMemory k).inMemory k' = (decide (k' ≠ k) && c.inMemory k') :=
  Table.contains_erase c.entries k k'

theorem onDisk_dropDisk (c : Overflow K V) (k k' : K) :
    (c.dropDisk k).onDisk k' = (decide (k' ≠ k) && c.onDisk k') := by
  unfold onDisk dropDisk
  cases c.disk with
  | none => simp
  | some t => exact Table.contains_erase t.slots k k'

theorem Tidy.dropMemory {c : Overflow K V} (h : c.Tidy) (k : K) : (c.dropMemory k).Tidy where
  order := h.order.remove k
  weights k' := by
    show (c.order.remove k).weight? k' = ((c.entries.erase k).get? k').map Entry.weight
    rw [Recency.weight?_remove, Table.get?_erase, h.weights]
    split <;> rfl
  disk := h.disk
  apart k' hk' := by
    rw [inMemory_dropMemory, Bool.and_eq_true] at hk'
    exact h.apart k' hk'.2

theorem Tidy.dropDisk {c : Overflow K V} (h : c.Tidy) (k : K) : (c.dropDisk k).Tidy where
  order := h.order
  weights := h.weights
  disk t ht := by
    obtain ⟨t₀, ht₀, rfl⟩ := Option.map_eq_some_iff.1 ht
    exact (h.disk t₀ ht₀).without k
  apart k' hk' := by
    rw [onDisk_dropDisk, h.apart k' hk', Bool.and_false]

theorem Sound.dropMemory {c : Overflow K V} (h : c.Sound) {k : K} (hk : c.onDisk k = false) :
    (c.dropMemory k).Vacant k where
  toTidy := h.toTidy.dropMemory k
  notInMemory := by simp [inMemory_dropMemory]
  notOnDisk := hk
  index k' hk' := by
    rw [inMemory_dropMemory, decide_eq_true hk', Bool.true_and]
    exact h.index k'

theorem Sound.dropDisk {c : Overflow K V} (h : c.Sound) {k : K} (hk : c.inMemory k = false) :
    (c.dropDisk k).Vacant k where
  toTidy := h.toTidy.dropDisk k
  notInMemory := hk
  notOnDisk := by simp [onDisk_dropDisk]
  index k' hk' := by
    rw [onDisk_dropDisk, decide_eq_true hk', Bool.true_and]
    exact h.index k'

theorem Sound.dropBoth {c : Overflow K V} (h : c.Sound) (k : K) :
    ((c.dropMemory k).dropDisk k).Vacant k where
  toTidy := (h.toTidy.dropMemory k).dropDisk k
  notInMemory := by
    show (c.dropMemory k).inMemory k = false
    simp [inMemory_dropMemory]
  notOnDisk := by simp [onDisk_dropDisk]
  index k' hk' := by
    have hmemory : ((c.dropMemory k).dropDisk k).inMemory k' = c.inMemory k' := by
      show (c.dropMemory k).inMemory k' = c.inMemory k'
      rw [inMemory_dropMemory, decide_eq_true hk', Bool.true_and]
    rw [onDisk_dropDisk, decide_eq_true hk', Bool.true_and, hmemory]
    exact h.index k'

/-! ## Filling or leaving the gap -/

def atFront (c : Overflow K V) (k : K) (e : Entry V) : Overflow K V :=
  { c with
    entries := c.entries.insert k e
    order := c.order.pushFront k e.weight
    keyIndex := c.keyIndex.insert k () }

theorem Vacant.forget {c : Overflow K V} {k : K} (h : c.Vacant k) : (c.forget k).Sound where
  toTidy := ⟨h.order, h.weights, h.disk, h.apart⟩
  index k' := by
    show (c.keyIndex.erase k).contains k' = (c.inMemory k' || c.onDisk k')
    rw [Table.contains_erase]
    by_cases hk : k' = k
    · simp [hk, h.notInMemory, h.notOnDisk]
    · rw [decide_eq_true hk, Bool.true_and, h.index k' hk]

theorem Vacant.atFront {c : Overflow K V} {k : K} (h : c.Vacant k) (e : Entry V) :
    (c.atFront k e).Sound where
  order := h.order.pushFront k e.weight
  weights k' := by
    show (c.order.pushFront k e.weight).weight? k' = ((c.entries.insert k e).get? k').map Entry.weight
    rw [Recency.weight?_pushFront, Table.get?_insert, h.weights]
    split <;> rfl
  disk := h.disk
  apart k' hk' := by
    have hmemory : (c.atFront k e).inMemory k' = (decide (k' = k) || c.inMemory k') :=
      Table.contains_insert c.entries k k' e
    show c.onDisk k' = false
    by_cases hk : k' = k
    · exact hk ▸ h.notOnDisk
    · rw [hmemory, decide_eq_false hk, Bool.false_or] at hk'
      exact h.apart k' hk'
  index k' := by
    show (c.keyIndex.insert k ()).contains k' = ((c.entries.insert k e).contains k' || c.onDisk k')
    rw [Table.contains_insert, Table.contains_insert]
    by_cases hk : k' = k
    · simp [hk]
    · rw [decide_eq_false hk, Bool.false_or, Bool.false_or]
      exact h.index k' hk

theorem Vacant.written {c : Overflow K V} {k : K} (h : c.Vacant k) {t : DiskTier K}
    (ht : c.disk = some t) (hindex : c.keyIndex.contains k = true) (bytes : Nat)
    (stamps : Timestamps) :
    Sound { c with
      disk := some (t.withWritten k bytes stamps)
      keyIndex := (t.listed k bytes).2.foldl Table.erase c.keyIndex } := by
  have hsound := h.disk t ht
  have hcontains (k' : K) : (t.withWritten k bytes stamps).contains k' =
      (decide (k' ∉ (t.listed k bytes).2) && (decide (k' = k) || t.contains k')) := by
    unfold DiskTier.withWritten DiskTier.contains
    rw [Table.contains_foldl_erase, Table.contains_insert]
  refine ⟨⟨h.order, h.weights, ?_, ?_⟩, ?_⟩
  · rintro t' ht'
    obtain rfl := Option.some.inj ht'
    exact hsound.withWritten k bytes stamps
  · intro k' hk'
    show (t.withWritten k bytes stamps).contains k' = false
    have hdisk : t.contains k' = false := by
      rw [← onDisk_of_disk ht]
      exact h.apart k' hk'
    have hne : k' ≠ k := fun hk => by
      have hmemory : c.inMemory k' = true := hk'
      rw [hk, h.notInMemory] at hmemory
      cases hmemory
    rw [hcontains, hdisk, decide_eq_false hne, Bool.or_self, Bool.and_false]
  · intro k'
    show ((t.listed k bytes).2.foldl Table.erase c.keyIndex).contains k' =
      (c.inMemory k' || (t.withWritten k bytes stamps).contains k')
    rw [Table.contains_foldl_erase, hcontains]
    by_cases hk : k' = k
    · rw [hk, hindex, h.notInMemory]
      simp
    · rw [h.index k' hk, onDisk_of_disk ht, decide_eq_false hk, Bool.false_or]
      by_cases hv : k' ∈ (t.listed k bytes).2
      · have hmemory : c.inMemory k' = false := by
          by_contra hm
          rw [Bool.not_eq_false] at hm
          have := h.apart k' hm
          rw [onDisk_of_disk ht] at this
          -- what is pushed off was on disk or is the key itself, so it is in no tier any more
          rcases hsound.of_mem_pushed hv with h' | h'
          · exact hk h'
          · rw [this] at h'
            cases h'
        simp [hv, hmemory]
      · simp [hv]

theorem Sound.withMetrics {c : Overflow K V} (h : c.Sound) (m : Metrics) :
    Sound { c with metrics := m } :=
  ⟨⟨h.order, h.weights, h.disk, h.apart⟩, h.index⟩

end CacheLayer.Overflow
