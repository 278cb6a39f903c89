import CacheLayer.Proofs.MapRequest
import CacheLayer.Proofs.Table

/-!
# A map that forgets what was used longest ago

The plainest map with a capacity: one list of keys with their values, most recent first. An insertion
and a look-up that finds its key make the key the most recent; keys beyond the capacity leave from
the old end. It says what a cache in tiers ought to look like from outside.

* `Lru.serve` : what each request replies, leaves behind and pushes out.
* `keys_settle`, `find?_settle` : what is left when the oldest keys are pushed out.
-/

namespace CacheLayer

/-- Keys with values, most recently used first, and how many of them are kept. -/
structure Lru (K : Type u) (α : Type v) where
  capacity : Nat
  items : List (K × α)

namespace Lru

variable {K : Type u} {α : Type v}

def empty (capacity : Nat) : Lru K α := ⟨capacity, []⟩

def keys (l : Lru K α) : List K := l.items.map Prod.fst

/-- Pushes out the keys beyond the capacity, given oldest first. -/
def settle (l : Lru K α) : Lru K α × List (K × α) :=
  ({ l with items := l.items.take l.capacity }, (l.items.drop l.capacity).reverse)

variable [DecidableEq K]

def find? (l : Lru K α) (k : K) : Option α := (l.items.find? fun e => e.1 = k).map Prod.snd

def without (l : Lru K α) (k : K) : Lru K α :=
  { l with items := l.items.filter fun e => decide (e.1 ≠ k) }

/-- The map with `k` at the front, in place of where it was. -/
def toFront (l : Lru K α) (k : K) (a : α) : Lru K α :=
  { l with items := (k, a) :: (l.without k).items }

structure Served (K : Type u) (α : Type v) where
  reply : MapReply K α
  map : Lru K α
  evicted : List (K × α)

def serve (l : Lru K α) : MapRequest K α → Served K α
  | .insert k a => ⟨.done, (l.toFront k a).settle.1, (l.toFront k a).settle.2⟩
  | .remove k => ⟨.truth (l.find? k).isSome, l.without k, []⟩
  | .get k =>
    match l.find? k with
    | some a => ⟨.value (some a), l.toFront k a, []⟩
    | none => ⟨.value none, l, []⟩
  | .contains k => ⟨.truth (l.find? k).isSome, l, []⟩
  | .keys => ⟨.keys l.keys, l, []⟩
  | .size => ⟨.count l.keys.length, l, []⟩

def run (l : Lru K α) : List (MapRequest K α) → List (Served K α)
  | [] => []
  | r :: rs => l.serve r :: (l.serve r).map.run rs

/-! ## Keys and values -/

theorem isSome_find? (l : Lru K α) (k : K) : (l.find? k).isSome = decide (k ∈ l.keys) := by
  have hnone := Table.find?_fst_eq_none_iff l.items k
  unfold find? keys
  rw [Option.isSome_map]
  cases hfind : l.items.find? fun e => e.1 = k with
  | none => rw [decide_eq_false (hnone.1 hfind), Option.isSome_none]
  | some e =>
    have hmem : k ∈ l.items.map Prod.fst := by
      by_contra hk
      rw [hnone.2 hk] at hfind
      cases hfind
    rw [decide_eq_true hmem, Option.isSome_some]

theorem find?_eq_none_iff (l : Lru K α) (k : K) : l.find? k = none ↔ k ∉ l.keys := by
  rw [← Option.isNone_iff_eq_none, ← Option.not_isSome, isSome_find?]
  simp

theorem mem_keys_of_find? {l : Lru K α} {k : K} {a : α} (h : l.find? k = some a) : k ∈ l.keys := by
  have hsome := l.isSome_find? k
  rw [h] at hsome
  exact of_decide_eq_true hsome.symm

theorem keys_without (l : Lru K α) (k : K) :
    (l.without k).keys = l.keys.filter fun k' => decide (k' ≠ k) := by
  unfold keys without
  rw [List.filter_map]
  rfl

theorem find?_without (l : Lru K α) (k k' : K) :
    (l.without k).find? k' = if k' = k then none else l.find? k' := by
  by_cases hk : k' = k
  · rw [if_pos hk, find?_eq_none_iff, keys_without, List.mem_filter]
    simp [hk]
  · rw [if_neg hk]
    unfold find? without
    rw [Table.find?_filter_fst _ _ _ fun _ => decide_eq_true hk]

theorem keys_toFront (l : Lru K α) (k : K) (a : α) :
    (l.toFront k a).keys = k :: l.keys.filter fun k' => decide (k' ≠ k) := by
  rw [← keys_without]
  rfl

theorem find?_toFront (l : Lru K α) (k k' : K) (a : α) :
    (l.toFront k a).find? k' = if k' = k then some a else l.find? k' := by
  have hrest := find?_without l k k'
  unfold find? at hrest ⊢
  unfold toFront
  rw [List.find?_cons]
  by_cases hk : k' = k
  · simp [hk]
  · have hne : ¬ k = k' := fun h => hk h.symm
    simp only [decide_eq_false hne, hrest, if_neg hk]

theorem find?_toFront_of_find? {l : Lru K α} {k : K} {a : α} (h : l.find? k = some a) (k' : K) :
    (l.toFront k a).find? k' = l.find? k' := by
  rw [find?_toFront]
  split
  · rename_i hk
    rw [hk, h]
  · rfl

theorem length_toFront {l : Lru K α} {k : K} {v : α} (hfind : l.find? k = some v) :
    (l.toFront k v).keys.length ≤ l.keys.length := by
  have hfewer : (l.keys.filter fun k' => decide (k' ≠ k)).length < l.keys.length := by
    rw [List.length_filter_lt_length_iff_exists]
    exact ⟨k, mem_keys_of_find? hfind, by simp⟩
  rw [keys_toFront, List.length_cons]
  omega

theorem toFront_without (l : Lru K α) (k : K) (a : α) :
    (l.without k).toFront k a = l.toFront k a := by
  unfold toFront without
  rw [List.filter_filter]
  simp only [Bool.and_self]

/-! ## Pushing out -/

omit [DecidableEq K] in
theorem settle_of_length_le {l : Lru K α} (h : l.keys.length ≤ l.capacity) : l.settle = (l, []) := by
  have hitems : l.items.length ≤ l.capacity := by
    unfold keys at h
    rwa [List.length_map] at h
  unfold settle
  rw [List.take_of_length_le hitems, List.drop_of_length_le hitems, List.reverse_nil]

omit [DecidableEq K] in
theorem keys_settle (l : Lru K α) : l.settle.1.keys = l.keys.take l.capacity := by
  unfold settle keys
  rw [List.map_take]

omit [DecidableEq K] in
theorem evicted_settle (l : Lru K α) :
    l.settle.2.map Prod.fst = (l.keys.drop l.capacity).reverse := by
  unfold settle keys
  rw [List.map_reverse, List.map_drop]

theorem find?_settle {l : Lru K α} (h : l.keys.Nodup) (k : K) :
    l.settle.1.find? k = if k ∈ l.keys.drop l.capacity then none else l.find? k := by
  have hsplit : l.keys.take l.capacity ++ l.keys.drop l.capacity = l.keys := List.take_append_drop _ _
  have hapart := (List.nodup_append'.1 (hsplit.symm ▸ h)).2.2
  split
  · rename_i hk
    rw [find?_eq_none_iff, keys_settle]
    exact fun hkept => hapart hkept hk
  · rename_i hk
    have hout : (l.items.drop l.capacity).find? (fun e => e.1 = k) = none := by
      rw [Table.find?_fst_eq_none_iff, List.map_drop]
      exact hk
    unfold find? settle
    conv => rhs; rw [← List.take_append_drop l.capacity l.items, List.find?_append, hout]
    rw [Option.or_none]

theorem find?_of_settle {l : Lru K α} {k : K} {a : α} (h : l.settle.1.find? k = some a) :
    l.find? k = some a := by
  unfold find? settle at h
  obtain ⟨e, he, rfl⟩ := Option.map_eq_some_iff.1 h
  unfold find?
  conv => lhs; rw [← List.take_append_drop l.capacity l.items, List.find?_append, he]
  rfl

theorem find?_of_mem_items {l : Lru K α} (h : l.keys.Nodup) {k : K} {a : α}
    (hmem : (k, a) ∈ l.items) : l.find? k = some a :=
  (Table.mem_entries ⟨l.items, h⟩ k a).1 hmem

/-- A single key beyond the capacity leaves with the value that is found under it. -/
theorem settle_of_drop {l : Lru K α} (h : l.keys.Nodup) {k : K} {a : α}
    (hdrop : l.keys.drop l.capacity = [k]) (hfind : l.find? k = some a) : l.settle.2 = [(k, a)] := by
  have hout := l.evicted_settle
  rw [hdrop] at hout
  obtain ⟨⟨k', b⟩, hpair, hk' : k' = k⟩ := List.map_eq_singleton_iff.1 hout
  have hmem : (k', b) ∈ l.items := by
    apply List.mem_of_mem_drop (i := l.capacity)
    rw [← List.mem_reverse]
    show (k', b) ∈ l.settle.2
    rw [hpair]
    exact List.mem_singleton_self _
  have hb := find?_of_mem_items h hmem
  rw [hk', hfind] at hb
  rw [hpair, hk', Option.some.inj hb]

end Lru

end CacheLayer
