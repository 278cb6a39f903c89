import CacheLayer.Proofs.Table
import CacheLayer.Volatile

/-!
# The theory of the volatile cache

A volatile cache is seen through `stored?`, whatever the number of its shards and the hash of its keys.

* `stored?_erase` : forgetting a key leaves the entries of other keys, also in the same shard.
* `get_answer` : what a look-up answers.
* `remove_answer`, `contains_remove`, `get_remove` : a removal says whether its key was present, takes
  it out and touches no other.
-/

namespace CacheLayer.Volatile

variable {K : Type u} {V : Type v}

theorem shard_setShard (c : Volatile K V) (i j : Nat) (t : Table K (Entry V)) :
    (c.setShard i t).shard j = if i = j ∧ i < c.shards.length then t else c.shard j := by
  unfold shard setShard
  rw [List.getElem?_set]
  by_cases hij : i = j
  · subst hij
    by_cases hlt : i < c.shards.length
    · simp [hlt]
    · simp [hlt]
  · simp [hij]

theorem shard_of_length_le {c : Volatile K V} {i : Nat} (h : c.shards.length ≤ i) :
    c.shard i = .empty := by
  unfold shard
  rw [List.getElem?_eq_none h]
  rfl

variable [DecidableEq K]

theorem stored?_erase (c : Volatile K V) (k k' : K) :
    (c.erase k).stored? k' = if k' = k then none else c.stored? k' := by
  have hplace : (c.erase k).shardOf k' = c.shardOf k' := by
    unfold shardOf erase setShard
    rw [List.length_set]
  unfold stored?
  rw [hplace, erase, shard_setShard]
  by_cases hk : k' = k
  · subst hk
    rw [if_pos rfl]
    by_cases hlt : c.shardOf k' < c.shards.length
    · rw [if_pos ⟨rfl, hlt⟩, Table.get?_erase, if_pos rfl]
    · rw [if_neg fun h => hlt h.2, shard_of_length_le (Nat.le_of_not_lt hlt), Table.get?_empty]
  · rw [if_neg hk]
    split
    · rename_i hsame
      rw [Table.get?_erase, if_neg hk, hsame.1]
    · rfl

theorem get_answer (c : Volatile K V) (now : Nat) (k : K) :
    (c.get now k).answer = ((c.stored? k).filter (c.live now)).map Entry.value := by
  unfold get live
  cases c.stored? k with
  | none => rfl
  | some e =>
    rw [Option.filter_some]
    cases hx : c.expiration now e with
    | none =>
      simp only [hx]
      rfl
    | some x =>
      simp only [hx]
      rfl

theorem contains_eq (c : Volatile K V) (now : Nat) (k : K) :
    c.contains now k = (c.stored? k).any (c.live now) := by
  unfold contains
  cases c.stored? k <;> rfl

/-! ## Removing -/

theorem remove_answer (c : Volatile K V) (now : Nat) (k : K) :
    (c.remove now k).answer = c.contains now k := by
  unfold remove contains live
  cases c.stored? k with
  | none => rfl
  | some e => cases hx : c.expiration now e <;> simp [hx]

theorem stored?_remove (c : Volatile K V) (now : Nat) (k k' : K) :
    (c.remove now k).cache.stored? k' = if k' = k then none else c.stored? k' := by
  unfold remove
  cases hentry : c.stored? k with
  | none =>
    show c.stored? k' = _
    split
    · rename_i hk
      rw [hk]
      exact hentry
    · rfl
  | some e =>
    cases hx : c.expiration now e with
    | none =>
      simp only [hx]
      exact stored?_erase c k k'
    | some x =>
      simp only [hx]
      exact stored?_erase c k k'

theorem live_remove (c : Volatile K V) (now : Nat) (k : K) :
    (c.remove now k).cache.live now = c.live now := by
  have htimeout : (c.remove now k).cache.timeToIdle = c.timeToIdle := by
    unfold remove
    cases c.stored? k with
    | none => rfl
    | some e => cases hx : c.expiration now e <;> simp only [hx] <;> rfl
  funext e
  unfold live expiration
  rw [htimeout]

theorem contains_remove (c : Volatile K V) (now : Nat) (k k' : K) :
    (c.remove now k).cache.contains now k' = (decide (k' ≠ k) && c.contains now k') := by
  rw [contains_eq, contains_eq, stored?_remove, live_remove]
  by_cases hk : k' = k
  · simp [hk]
  · simp [hk]

theorem get_remove (c : Volatile K V) (now : Nat) (k k' : K) :
    ((c.remove now k).cache.get now k').answer =
      if k' = k then none else (c.get now k').answer := by
  rw [get_answer, get_answer, stored?_remove, live_remove]
  split
  · rfl
  · rfl

end CacheLayer.Volatile
