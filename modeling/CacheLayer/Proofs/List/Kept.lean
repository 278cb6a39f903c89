import CacheLayer.List.Lazy
import CacheLayer.Proofs.List.Uses
import CacheLayer.Proofs.SoftHeap
import Mathlib.Data.List.Perm.Subperm

/-!
# What a lazy list keeps

The indices of a lazy list whose elements can be given without asking for them are those of its recency
list, whose elements it holds, followed by those that its heap retains. The parts of a list belong
together as `Tidy` tells, so that an object that was left to the heap is alive exactly as long as the
heap retains it; and `Sound` adds the sizes.

* `recent` : the indices kept, the most recent first.
* `Tidy.alive_iff` : whose objects are alive.
* `Sound.takeIn` : taking an element in is a use of its index.
-/

namespace CacheLayer.LazyList

variable {V : Type u}

/-- The indices whose elements are kept, the most recent first. -/
def recent (l : LazyList V) : List Nat := l.hot.keys ++ l.heap.order.keys

/-- The object belongs to the index: it is held, or it was left to the heap. -/
def Owns (l : LazyList V) (i : Nat) (s : Shared V) : Prop :=
  l.values.get? i = some s ∨ l.soft.get? i = some s

/-- The parts of a list belong together, and nobody outside holds its objects. -/
structure Tidy (l : LazyList V) (w : World) : Prop where
  hot : l.hot.Sound
  values : ∀ i, i ∈ l.hot.keys ↔ l.values.contains i = true
  order : l.heap.order.Sound
  retained : ∀ i, i ∈ l.heap.order.keys ↔ l.heap.retained.contains i = true
  /-- What the heap retains under an index is the object that was left to it. -/
  tied : ∀ i s, l.heap.retained.get? i = some s → l.soft.get? i = some s
  /-- What is held was not left to the heap. -/
  apart : ∀ i s, l.soft.get? i = some s → l.values.get? i = none
  /-- No object belongs to two indices. -/
  names : ∀ i s j t, l.Owns i s → l.Owns j t → s.id = t.id → i = j
  made : ∀ i s, l.Owns i s → s.id < w.nextId ∧ w.holds s.id = false

theorem Tidy.soft_of_mem {l : LazyList V} {w : World} (h : l.Tidy w) {i : Nat}
    (hi : i ∈ l.heap.order.keys) :
    ∃ s, l.heap.retained.get? i = some s ∧ l.soft.get? i = some s := by
  obtain ⟨s, hs⟩ := Table.get?_of_contains ((h.retained i).1 hi)
  exact ⟨s, hs, h.tied i s hs⟩

theorem Tidy.value_of_mem {l : LazyList V} {w : World} (h : l.Tidy w) {i : Nat}
    (hi : i ∈ l.hot.keys) : ∃ s, l.values.get? i = some s :=
  Table.get?_of_contains ((h.values i).1 hi)

theorem Tidy.not_mem_hot {l : LazyList V} {w : World} (h : l.Tidy w) {i : Nat}
    (hi : i ∈ l.heap.order.keys) : i ∉ l.hot.keys := by
  intro hhot
  obtain ⟨s, -, hsoft⟩ := h.soft_of_mem hi
  obtain ⟨t, hvalue⟩ := h.value_of_mem hhot
  rw [h.apart i s hsoft] at hvalue
  cases hvalue

theorem Tidy.not_mem_heap {l : LazyList V} {w : World} (h : l.Tidy w) {i : Nat} {s : Shared V}
    (hvalue : l.values.get? i = some s) : i ∉ l.heap.order.keys := fun hi =>
  h.not_mem_hot hi ((h.values i).2 (Table.contains_of_get? hvalue))

theorem Tidy.alive_iff {l : LazyList V} {w : World} (h : l.Tidy w) {i : Nat} {s : Shared V}
    (hsoft : l.soft.get? i = some s) : l.alive w s = true ↔ i ∈ l.heap.order.keys := by
  have howns : l.Owns i s := .inr hsoft
  unfold alive
  rw [Bool.or_eq_true, SoftHeap.alive_iff, List.any_eq_true]
  constructor
  · rintro ((⟨j, t, hretained, hid⟩ | hheld) | ⟨t, hmem, hid⟩)
    · rw [h.names i s j t howns (.inr (h.tied j t hretained)) hid.symm]
      exact (h.retained j).2 (Table.contains_of_get? hretained)
    · rw [(h.made i s howns).2] at hheld
      cases hheld
    · obtain ⟨j, hvalue⟩ := (l.values.mem_values t).1 hmem
      have hsame := h.names i s j t howns (.inl hvalue) (of_decide_eq_true hid).symm
      rw [← hsame, h.apart i s hsoft] at hvalue
      cases hvalue
  · intro hi
    obtain ⟨t, hretained, hsoft'⟩ := h.soft_of_mem hi
    obtain rfl := Option.some.inj (hsoft'.symm.trans hsoft)
    exact .inl (.inl ⟨i, t, hretained, rfl⟩)

theorem Tidy.later {l : LazyList V} {w w' : World} (h : l.Tidy w) (hheld : w'.held = w.held)
    (hnext : w.nextId ≤ w'.nextId) : l.Tidy w' := by
  refine { h with made := fun i s howns => ?_ }
  obtain ⟨hid, hnot⟩ := h.made i s howns
  refine ⟨by omega, ?_⟩
  unfold World.holds at hnot ⊢
  rwa [hheld]

/-! ## One index -/

def cleared (l : LazyList V) (i : Nat) : LazyList V :=
  { l with
    hot := l.hot.remove i
    values := l.values.erase i
    soft := l.soft.erase i
    heap := (l.heap.release i).2 }

def atFront (l : LazyList V) (i : Nat) (s : Shared V) : LazyList V :=
  { l with hot := l.hot.pushFront i 1, values := l.values.insert i s }

def left (l : LazyList V) (i : Nat) (s : Shared V) : LazyList V :=
  { l with
    hot := l.hot.remove i
    values := l.values.erase i
    soft := l.soft.insert i s
    heap := l.heap.retain i s
    metrics := { l.metrics with evictedByCapacity := l.metrics.evictedByCapacity + 1 } }

theorem tied_left {l : LazyList V}
    (htied : ∀ i s, l.heap.retained.get? i = some s → l.soft.get? i = some s) {i j : Nat}
    {s t : Shared V} (hretained : (l.left i s).heap.retained.get? j = some t) :
    (l.left i s).soft.get? j = some t := by
  have hretained := SoftHeap.retained_retain hretained
  show (l.soft.insert i s).get? j = some t
  rw [Table.get?_insert]
  split at hretained
  · rename_i hj
    rw [if_pos hj]
    exact hretained
  · rename_i hj
    rw [if_neg hj]
    exact htied j t hretained

theorem apart_left {l : LazyList V}
    (hapart : ∀ i s, l.soft.get? i = some s → l.values.get? i = none) {i j : Nat}
    {s t : Shared V} (hsoft : (l.left i s).soft.get? j = some t) :
    (l.left i s).values.get? j = none := by
  have hsoft : (l.soft.insert i s).get? j = some t := hsoft
  show (l.values.erase i).get? j = none
  rw [Table.get?_insert] at hsoft
  rw [Table.get?_erase]
  split
  · rfl
  · rename_i hj
    rw [if_neg hj] at hsoft
    exact hapart j t hsoft

theorem owns_cleared (l : LazyList V) (i j : Nat) (s : Shared V) :
    (l.cleared i).Owns j s ↔ j ≠ i ∧ l.Owns j s := by
  unfold Owns cleared
  rw [Table.get?_erase, Table.get?_erase]
  by_cases hj : j = i
  · simp [hj]
  · simp [hj]

theorem Tidy.cleared {l : LazyList V} {w : World} (h : l.Tidy w) (i : Nat) :
    (l.cleared i).Tidy w where
  hot := h.hot.remove i
  values j := by
    show j ∈ (l.hot.remove i).keys ↔ (l.values.erase i).contains j = true
    rw [Recency.mem_keys_remove, Table.contains_erase, h.values, Bool.and_eq_true,
      decide_eq_true_iff, and_comm]
  order := h.order.remove i
  retained j := by
    show j ∈ (l.heap.order.remove i).keys ↔ (l.heap.retained.erase i).contains j = true
    rw [Recency.mem_keys_remove, Table.contains_erase, h.retained, Bool.and_eq_true,
      decide_eq_true_iff, and_comm]
  tied j s hretained := Table.get?_erase_of_imp h.tied hretained
  apart j s hsoft := by
    have hsoft : (l.soft.erase i).get? j = some s := hsoft
    show (l.values.erase i).get? j = none
    rw [Table.get?_erase] at hsoft ⊢
    split
    · rfl
    · rename_i hj
      rw [if_neg hj] at hsoft
      exact h.apart j s hsoft
  names j s k t hj hk hid :=
    h.names j s k t ((owns_cleared l i j s).1 hj).2 ((owns_cleared l i k t).1 hk).2 hid
  made j s hj := h.made j s ((owns_cleared l i j s).1 hj).2

theorem Tidy.atFront {l : LazyList V} {w : World} (h : l.Tidy w) {i : Nat} {s : Shared V}
    (hfree : ∀ t, ¬ l.Owns i t) (hnew : ∀ j t, l.Owns j t → t.id ≠ s.id)
    (hmade : s.id < w.nextId ∧ w.holds s.id = false) : (l.atFront i s).Tidy w := by
  have howns (j : Nat) (t : Shared V) (hj : (l.atFront i s).Owns j t) :
      (j = i ∧ t = s) ∨ l.Owns j t := by
    rcases hj with hvalue | hsoft
    · have hvalue : (l.values.insert i s).get? j = some t := hvalue
      rw [Table.get?_insert] at hvalue
      split at hvalue
      · rename_i hj
        exact .inl ⟨hj, (Option.some.inj hvalue).symm⟩
      · exact .inr (.inl hvalue)
    · exact .inr (.inr hsoft)
  refine ⟨h.hot.pushFront i 1, fun j => ?_, h.order, h.retained, h.tied, fun j t hsoft => ?_,
    fun j t k u hj hk hid => ?_, fun j t hj => ?_⟩
  · show j ∈ (l.hot.pushFront i 1).keys ↔ (l.values.insert i s).contains j = true
    rw [Recency.mem_keys_pushFront, Table.contains_insert, h.values, Bool.or_eq_true,
      decide_eq_true_iff]
  · show (l.values.insert i s).get? j = none
    have hj : j ≠ i := fun hj => hfree t (hj ▸ .inr hsoft)
    rw [Table.get?_insert, if_neg hj]
    exact h.apart j t hsoft
  · rcases howns j t hj with ⟨hji, hts⟩ | hjl
    · rcases howns k u hk with ⟨hki, -⟩ | hkl
      · exact hji.trans hki.symm
      · exact absurd (hts ▸ hid.symm) (hnew k u hkl)
    · rcases howns k u hk with ⟨-, hus⟩ | hkl
      · exact absurd (hus ▸ hid) (hnew j t hjl)
      · exact h.names j t k u hjl hkl hid
  · rcases howns j t hj with ⟨-, hts⟩ | hjl
    · exact hts ▸ hmade
    · exact h.made j t hjl

theorem owns_left {l : LazyList V} {i : Nat} {s : Shared V} (hvalue : l.values.get? i = some s)
    {j : Nat} {t : Shared V} (hj : (l.left i s).Owns j t) :
    l.Owns j t := by
  rcases hj with hj | hj
  · have hj : (l.values.erase i).get? j = some t := hj
    rw [Table.get?_erase] at hj
    split at hj
    · cases hj
    · exact .inl hj
  · have hj : (l.soft.insert i s).get? j = some t := hj
    rw [Table.get?_insert] at hj
    split at hj
    · rename_i heq
      rw [heq, ← Option.some.inj hj]
      exact .inl hvalue
    · exact .inr hj

theorem mem_take_iff {ks : List Nat} (h : ks.Nodup) (n k : Nat) :
    k ∈ ks.take n ↔ k ∈ ks ∧ k ∉ ks.drop n := by
  have hsplit := List.take_append_drop n ks
  have hapart := (List.nodup_append'.1 (hsplit.symm ▸ h)).2.2
  constructor
  · exact fun hk => ⟨List.mem_of_mem_take hk, fun hdrop => hapart hk hdrop⟩
  · rintro ⟨hk, hdrop⟩
    rw [← hsplit, List.mem_append] at hk
    exact hk.resolve_right hdrop

theorem Tidy.retain {l : LazyList V} {w : World} (h : l.Tidy w) {i : Nat} {s : Shared V}
    (hvalue : l.values.get? i = some s) :
    (l.heap.retain i s).order.keys = (i :: l.heap.order.keys).take l.heap.capacity ∧
      ∀ j, (l.heap.retain i s).retained.get? j =
        if j ∈ (i :: l.heap.order.keys).drop l.heap.capacity then none
        else if j = i then some s else l.heap.retained.get? j := by
  obtain ⟨hkeys, -, -, hretained⟩ := SoftHeap.retain_spec h.order i s
  rw [Recency.filter_ne_of_not_mem (h.not_mem_heap hvalue)] at hkeys hretained
  exact ⟨hkeys, hretained⟩

theorem Tidy.left {l : LazyList V} {w : World} (h : l.Tidy w) {i : Nat} {s : Shared V}
    (hvalue : l.values.get? i = some s) : (l.left i s).Tidy w := by
  obtain ⟨hkeys, hretained⟩ := h.retain hvalue
  have hnodup : (i :: l.heap.order.keys).Nodup :=
    List.nodup_cons.2 ⟨h.not_mem_heap hvalue, h.order.nodup_keys⟩
  refine ⟨h.hot.remove i, fun j => ?_, (SoftHeap.retain_spec h.order i s).2.1, fun j => ?_,
    fun j t hkept => ?_, fun j t hsoft => ?_, fun j t k u hj hk hid => ?_, fun j t hj => ?_⟩
  · exact (h.cleared i).values j
  · show j ∈ (l.heap.retain i s).order.keys ↔ (l.heap.retain i s).retained.contains j = true
    rw [hkeys, mem_take_iff hnodup, Table.contains_eq, hretained, List.mem_cons, h.retained]
    by_cases hdrop : j ∈ (i :: l.heap.order.keys).drop l.heap.capacity
    · simp [hdrop]
    · by_cases hj : j = i
      · simp [hj]
      · simp [hdrop, hj, Table.contains]
  · exact tied_left h.tied hkept
  · exact apart_left h.apart hsoft
  · exact h.names j t k u (owns_left hvalue hj) (owns_left hvalue hk) hid
  · exact h.made j t (owns_left hvalue hj)

/-! ## Sizes -/

structure Sound (l : LazyList V) (w : World) : Prop extends Tidy l w where
  positive : 1 ≤ l.cacheSize
  hotFits : l.hot.keys.length ≤ l.cacheSize
  heapFits : l.heap.order.keys.length ≤ l.heap.capacity
  /-- Nothing is left to the heap before the list is full. -/
  full : l.heap.order.keys ≠ [] → l.hot.keys.length = l.cacheSize
  older : ∀ id, w.holds id = true → id < w.nextId

/-- The number of indices that a list and its heap have room for. -/
def room (l : LazyList V) : Nat := l.cacheSize + l.heap.capacity

structure SameSettings (l l' : LazyList V) : Prop where
  offset : l'.offset = l.offset
  length : l'.length = l.length
  cacheSize : l'.cacheSize = l.cacheSize
  strategy : l'.strategy = l.strategy
  capacity : l'.heap.capacity = l.heap.capacity

theorem SameSettings.refl (l : LazyList V) : l.SameSettings l := ⟨rfl, rfl, rfl, rfl, rfl⟩

theorem SameSettings.trans {l l' l'' : LazyList V} (h : l.SameSettings l')
    (h' : l'.SameSettings l'') : l.SameSettings l'' :=
  ⟨h'.offset.trans h.offset, h'.length.trans h.length, h'.cacheSize.trans h.cacheSize,
    h'.strategy.trans h.strategy, h'.capacity.trans h.capacity⟩

theorem SameSettings.room {l l' : LazyList V} (h : l.SameSettings l') : l'.room = l.room :=
  congrArg₂ (· + ·) h.cacheSize h.capacity

/-- A list before and after a use of each of the indices, in order. -/
structure Uses (l : LazyList V) (is : List Nat) (l' : LazyList V) : Prop where
  settings : l.SameSettings l'
  recent : l'.recent = is.foldl (touch l.room) l.recent

theorem Uses.trans {l l' l'' : LazyList V} {is js : List Nat} (h : l.Uses is l')
    (h' : l'.Uses js l'') : l.Uses (is ++ js) l'' := by
  refine ⟨h.settings.trans h'.settings, ?_⟩
  rw [h'.recent, h.settings.room, h.recent, List.foldl_append]

theorem Sound.later {l : LazyList V} {w w' : World} (h : l.Sound w) (hheld : w'.held = w.held)
    (hnext : w.nextId ≤ w'.nextId) : l.Sound w' := by
  refine { h with toTidy := h.toTidy.later hheld hnext, older := fun id hid => ?_ }
  unfold World.holds at hid
  rw [hheld] at hid
  exact Nat.lt_of_lt_of_le (h.older id hid) hnext

theorem Sound.length_recent_le {l : LazyList V} {w : World} (h : l.Sound w) :
    l.recent.length ≤ l.room := by
  unfold recent room
  rw [List.length_append]
  exact Nat.add_le_add h.hotFits h.heapFits

theorem Sound.keys_hot {l : LazyList V} {w : World} (h : l.Sound w) :
    l.hot.keys = l.recent.take l.cacheSize := by
  unfold recent
  by_cases hheap : l.heap.order.keys = []
  · rw [hheap, List.append_nil, List.take_of_length_le h.hotFits]
  · rw [← h.full hheap, List.take_left]

/-! ## Taking an element in -/

/-- With the element at the front nothing is left to the heap, or the last held element is. -/
theorem takeIn_cases {l : LazyList V} {w : World} {i : Nat} {s : Shared V}
    (hfront : ((l.cleared i).atFront i s).Tidy w) (hfits : l.hot.keys.length ≤ l.cacheSize) :
    let front := (l.cleared i).atFront i s
    (front.hot.keys.length ≤ l.cacheSize ∧ l.takeIn i s = front) ∨
    ∃ x t, front.hot.keys = (front.hot.remove x).keys ++ [x] ∧
      (front.hot.remove x).keys.length = l.cacheSize ∧ front.values.get? x = some t ∧
      l.takeIn i s = front.left x t := by
  intro front
  have hhot : front.hot = l.hot.pushFront i 1 := Recency.pushFront_remove l.hot i 1
  have hsize : front.hot.size ≤ l.hot.size + 1 := by
    rw [hhot]
    exact Recency.size_pushFront_le l.hot i 1
  have hroom : front.hot.keys.length ≤ l.cacheSize + 1 := by
    rw [Recency.length_keys] at hfits ⊢
    omega
  have htakeIn : l.takeIn i s =
      let cut := Recency.trim (Bound.entries l.cacheSize).exceededBy (l.hot.size + 1) front.hot
      { front with hot := cut.1 }.retire cut.2 := by
    unfold takeIn
    rw [← Table.insert_erase l.values i s, ← hhot]
    rfl
  rcases hfront.hot.trim_cases hsize hroom with ⟨hle, htrim⟩ | ⟨x, hkeys, hlength, htrim⟩
  · refine .inl ⟨hle, ?_⟩
    rw [htakeIn]
    dsimp only
    rw [htrim]
    rfl
  · have hmem : x ∈ front.hot.keys := by
      rw [hkeys]
      exact List.mem_append_right _ (List.mem_singleton_self x)
    obtain ⟨t, hvalue⟩ := hfront.value_of_mem hmem
    refine .inr ⟨x, t, hkeys, hlength, hvalue, ?_⟩
    rw [htakeIn]
    dsimp only
    rw [htrim]
    unfold retire
    dsimp only
    rw [hvalue]
    rfl

theorem keys_hot_front (l : LazyList V) (i : Nat) (s : Shared V) :
    ((l.cleared i).atFront i s).hot.keys = i :: l.hot.keys.filter fun j => decide (j ≠ i) := by
  show ((l.hot.remove i).pushFront i 1).keys = _
  rw [Recency.pushFront_remove, Recency.keys_pushFront]

theorem keys_heap_front (l : LazyList V) (i : Nat) (s : Shared V) :
    ((l.cleared i).atFront i s).heap.order.keys =
      l.heap.order.keys.filter fun j => decide (j ≠ i) := Recency.keys_remove l.heap.order i

theorem touch_recent (l : LazyList V) (i : Nat) (s : Shared V) :
    touch l.room l.recent i = ((l.cleared i).atFront i s).recent.take l.room := by
  unfold touch recent
  rw [keys_hot_front, keys_heap_front, List.cons_append, List.filter_append]

theorem Sound.length_hot_front {l : LazyList V} {w : World} (h : l.Sound w) (i : Nat)
    (s : Shared V) : l.hot.keys.length ≤ ((l.cleared i).atFront i s).hot.keys.length := by
  rw [keys_hot_front]
  refine (List.subperm_of_subset h.hot.nodup_keys fun j hj => ?_).length_le
  by_cases hji : j = i
  · rw [hji]
    exact List.mem_cons_self
  · exact List.mem_cons_of_mem i (List.mem_filter.2 ⟨hj, decide_eq_true hji⟩)

/-- Taking an element in is a use of its index. The object is the index's own or a new one. -/
theorem Sound.takeIn {l : LazyList V} {w : World} (h : l.Sound w) {i : Nat} {s : Shared V}
    (hown : ∀ j t, l.Owns j t → t.id = s.id → j = i)
    (hmade : s.id < w.nextId ∧ w.holds s.id = false) :
    (l.takeIn i s).Sound w ∧ l.Uses [i] (l.takeIn i s) := by
  have hfront : ((l.cleared i).atFront i s).Tidy w := by
    refine (h.toTidy.cleared i).atFront (fun t ht => ?_) (fun j t ht hid => ?_) hmade
    · exact ((owns_cleared l i i t).1 ht).1 rfl
    · obtain ⟨hne, hj⟩ := (owns_cleared l i j t).1 ht
      exact hne (hown j t hj hid)
  have hheap : ((l.cleared i).atFront i s).heap.order.keys.length ≤ l.heap.capacity := by
    rw [keys_heap_front]
    exact Nat.le_trans (List.length_filter_le _ _) h.heapFits
  rcases takeIn_cases hfront h.hotFits with ⟨hle, htake⟩ | ⟨x, t, hkeys, hlength, hvalue, htake⟩
  · -- nothing is pushed out, so that the list was full before only if it held `i`
    have hfull (hsome : ((l.cleared i).atFront i s).heap.order.keys ≠ []) :
        ((l.cleared i).atFront i s).hot.keys.length = l.cacheSize := by
      refine Nat.le_antisymm hle ?_
      rw [← h.full fun hnone => hsome (by rw [keys_heap_front, hnone]; rfl)]
      exact h.length_hot_front i s
    have hrecent : ((l.cleared i).atFront i s).recent.length ≤ l.room := by
      unfold recent
      rw [List.length_append]
      exact Nat.add_le_add hle hheap
    rw [htake]
    refine ⟨⟨hfront, h.positive, hle, hheap, hfull, h.older⟩, ⟨rfl, rfl, rfl, rfl, rfl⟩, ?_⟩
    rw [List.foldl_cons, List.foldl_nil, touch_recent l i s, List.take_of_length_le hrecent]
  · obtain ⟨hretain, -⟩ := hfront.retain hvalue
    have hcapacity := (SoftHeap.retain_spec hfront.order x t).2.2.1
    have hheap' : (((l.cleared i).atFront i s).heap.retain x t).order.keys.length ≤
        (((l.cleared i).atFront i s).heap.retain x t).capacity := by
      rw [hretain, hcapacity]
      exact List.length_take_le _ _
    rw [htake]
    refine ⟨⟨hfront.left hvalue, h.positive, Nat.le_of_eq hlength, hheap', fun _ => hlength,
      h.older⟩, ⟨rfl, rfl, rfl, rfl, hcapacity⟩, ?_⟩
    rw [List.foldl_cons, List.foldl_nil, touch_recent l i s]
    show (((l.cleared i).atFront i s).hot.remove x).keys ++
      (((l.cleared i).atFront i s).heap.retain x t).order.keys = _
    rw [hretain]
    unfold recent room
    rw [hkeys, ← hlength, List.append_assoc, List.take_length_add_append]
    rfl

end CacheLayer.LazyList
