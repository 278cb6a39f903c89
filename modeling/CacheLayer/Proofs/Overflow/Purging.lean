import CacheLayer.Proofs.Overflow.Expelling

/-!
# What a purge leaves

A purge takes the expired entries out of both tiers and leaves the others with their stamps. So the
keys that are listed after it are those that count as present before it, each judged by the same stamps.

* `Sound.stamps?_purgeExpired` : the stamps after a purge.
* `Sound.mem_keys`, `nodup_keys`, `size_answer` : what is listed and counted.
-/

namespace CacheLayer.Overflow

variable {K : Type u} {V : Type v} [DecidableEq K]

theorem Sound.stamps?_purgeExpired {c : Overflow K V} (h : c.Sound) (hdated : c.Dated) (w : World)
    (k : K) : (c.purgeExpired w).state.stamps? k = (c.stamps? k).filter (c.fresh w) := by
  have hkept : (c.purgeExpired w).state.stamps? k =
      (c.stamps? k).filter fun _ => (c.reason w k).isNone := by
    rw [h.state_purgeExpired hdated]
    exact c.stamps?_keep _ k
  rw [hkept, reason]
  cases c.stamps? k with
  | none => rfl
  | some stamps => rfl

/-! ## Listing -/

theorem Sound.mem_keys {c : Overflow K V} (h : c.Sound) (hdated : c.Dated) (w : World) (k : K) :
    k ∈ (c.keys w).answer ↔ c.contains w k = true := by
  show k ∈ (c.purgeExpired w).state.keyIndex.keys ↔ _
  rw [Table.mem_keys, (h.purgeExpired w).index, ← isSome_stamps?, h.stamps?_purgeExpired hdated,
    Option.isSome_filter, h.contains_eq hdated]

theorem nodup_keys (c : Overflow K V) (w : World) : (c.keys w).answer.Nodup :=
  (c.purgeExpired w).state.keyIndex.nodup_keys

theorem size_answer (c : Overflow K V) (w : World) :
    (c.size w).answer = (c.keys w).answer.length :=
  (Table.length_keys (c.purgeExpired w).state.keyIndex).symm

end CacheLayer.Overflow
