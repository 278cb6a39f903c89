import CacheLayer.Proofs.Recency
import Mathlib.Data.List.Dedup

/-!
# Indices by their last use

* `latest` : the distinct indices of a list of uses, the most recent first.
* `touch` : a use of one index, in a list that has room for so many.
* `foldl_touch_latest` : touching one index after the other keeps the most recent ones.
-/

namespace CacheLayer.LazyList

/-- The distinct indices that were used, the most recently used first; `used` has the oldest use
first. -/
def latest (used : List Nat) : List Nat := used.dedup.reverse

/-- The most recent indices after one more use, as far as there is room. -/
def touch (room : Nat) (recent : List Nat) (i : Nat) : List Nat :=
  (i :: recent.filter fun j => decide (j ≠ i)).take room

theorem dedup_concat (used : List Nat) (i : Nat) :
    (used ++ [i]).dedup = (used.dedup.filter fun j => decide (j ≠ i)) ++ [i] := by
  induction used with
  | nil => rfl
  | cons j used ih =>
    by_cases hi : j = i
    · have hmem : j ∈ used ++ [i] := by simp [hi]
      rw [List.cons_append, List.dedup_cons_of_mem hmem, ih]
      by_cases hused : j ∈ used
      · rw [List.dedup_cons_of_mem hused]
      · rw [List.dedup_cons_of_notMem hused, List.filter_cons_of_neg (by simp [hi])]
    · by_cases hused : j ∈ used
      · have hmem : j ∈ used ++ [i] := by simp [hused]
        rw [List.cons_append, List.dedup_cons_of_mem hmem, ih, List.dedup_cons_of_mem hused]
      · have hmem : j ∉ used ++ [i] := by simp [hused, hi]
        rw [List.cons_append, List.dedup_cons_of_notMem hmem, ih,
          List.dedup_cons_of_notMem hused, List.filter_cons_of_pos (by simp [hi])]
        rfl

theorem latest_concat (used : List Nat) (i : Nat) :
    latest (used ++ [i]) = i :: (latest used).filter fun j => decide (j ≠ i) := by
  unfold latest
  rw [dedup_concat, List.reverse_append, List.filter_reverse]
  rfl

theorem nodup_latest (used : List Nat) : (latest used).Nodup :=
  List.nodup_reverse.2 (List.nodup_dedup used)

/-- What lies beyond the room does not come back when an index is taken out. -/
theorem take_filter_take {recent : List Nat} (h : recent.Nodup) (i n : Nat) :
    ((recent.take (n + 1)).filter fun j => decide (j ≠ i)).take n =
      (recent.filter fun j => decide (j ≠ i)).take n := by
  induction recent generalizing n with
  | nil => rfl
  | cons j recent ih =>
    obtain ⟨hj, hrecent⟩ := List.nodup_cons.1 h
    rw [List.take_succ_cons]
    by_cases hi : j = i
    · rw [hi] at hj
      rw [List.filter_cons_of_neg (by simp [hi]), List.filter_cons_of_neg (by simp [hi]),
        Recency.filter_ne_of_not_mem fun hmem => hj (List.mem_of_mem_take hmem),
        Recency.filter_ne_of_not_mem hj, List.take_take, Nat.min_self]
    · rw [List.filter_cons_of_pos (by simp [hi]), List.filter_cons_of_pos (by simp [hi])]
      cases n with
      | zero => rfl
      | succ n => rw [List.take_succ_cons, List.take_succ_cons, ih hrecent n]

theorem touch_latest (room : Nat) (used : List Nat) (i : Nat) :
    touch room ((latest used).take room) i = (latest (used ++ [i])).take room := by
  unfold touch
  rw [latest_concat]
  cases room with
  | zero => rfl
  | succ n => rw [List.take_succ_cons, List.take_succ_cons, take_filter_take (nodup_latest used)]

theorem foldl_touch_latest (room : Nat) (more used : List Nat) :
    more.foldl (touch room) ((latest used).take room) = (latest (used ++ more)).take room := by
  induction more generalizing used with
  | nil => rw [List.append_nil, List.foldl_nil]
  | cons i more ih => rw [List.foldl_cons, touch_latest, ih, List.append_assoc]; rfl

theorem touch_touch (room : Nat) (recent : List Nat) (i : Nat) :
    touch room (touch room recent i) i = touch room recent i := by
  unfold touch
  cases room with
  | zero => rfl
  | succ n =>
    have hothers : i ∉ (recent.filter fun j => decide (j ≠ i)).take n := fun hi =>
      of_decide_eq_true (List.mem_filter.1 (List.mem_of_mem_take hi)).2 rfl
    rw [List.take_succ_cons, List.take_succ_cons, List.filter_cons_of_neg (by simp),
      Recency.filter_ne_of_not_mem hothers, List.take_take, Nat.min_self]

theorem mem_take_one_touch {room : Nat} (h : room ≠ 0) (recent : List Nat) (i : Nat) :
    i ∈ (touch room recent i).take 1 := by
  obtain ⟨n, rfl⟩ := Nat.exists_eq_succ_of_ne_zero h
  exact List.mem_cons_self

/-- An index moves back by one place at most while another is touched. -/
theorem mem_take_touch {room m i j : Nat} {recent : List Nat} (h : i ∈ recent.take m)
    (hij : i ≠ j) (hm : m + 1 ≤ room) : i ∈ (touch room recent j).take (m + 1) := by
  unfold touch
  rw [List.take_take, Nat.min_eq_left hm, List.take_succ_cons]
  refine List.mem_cons_of_mem j ?_
  have hfirst : ((recent.take m).filter fun x => decide (x ≠ j)) <+:
      recent.filter fun x => decide (x ≠ j) := (List.take_prefix m recent).filter _
  have hshort : ((recent.take m).filter fun x => decide (x ≠ j)).length ≤ m := by
    have hfilter := List.length_filter_le (fun x => decide (x ≠ j)) (recent.take m)
    have htake := List.length_take_le m recent
    omega
  have hmem : i ∈ (recent.take m).filter fun x => decide (x ≠ j) := by simp [h, hij]
  rw [List.prefix_iff_eq_take.1 hfirst] at hmem
  exact List.take_subset_take_left _ hshort hmem

/-- An index is still among the first ones after so many others were touched. -/
theorem mem_take_foldl_touch {room i : Nat} (others : List Nat) (hothers : i ∉ others) {m : Nat}
    {recent : List Nat} (h : i ∈ recent.take m) (hm : m + others.length ≤ room) :
    i ∈ (others.foldl (touch room) recent).take (m + others.length) := by
  induction others generalizing m recent with
  | nil => exact h
  | cons j others ih =>
    rw [List.mem_cons, not_or] at hothers
    rw [List.length_cons] at hm ⊢
    have hmoved : i ∈ (touch room recent j).take (m + 1) :=
      mem_take_touch h hothers.1 (by omega)
    have hnext := ih hothers.2 hmoved (by omega)
    rwa [show m + 1 + others.length = m + (others.length + 1) by omega] at hnext

theorem mem_take_run {room i n m : Nat} (recent : List Nat) (hn : 0 < n) (hm : n ≤ m)
    (hroom : m ≤ room) : i ∈ ((List.range' i n).foldl (touch room) recent).take m := by
  obtain ⟨k, rfl⟩ := Nat.exists_eq_succ_of_ne_zero (Nat.ne_of_gt hn)
  rw [List.range'_succ, List.foldl_cons]
  have hfirst : i ∈ (touch room recent i).take 1 := mem_take_one_touch (by omega) recent i
  have hothers : i ∉ List.range' (i + 1) k := by
    rw [List.mem_range'_1]
    omega
  have hlength : (List.range' (i + 1) k).length = k := List.length_range'
  have hfits : 1 + (List.range' (i + 1) k).length ≤ room := by omega
  have hmem := mem_take_foldl_touch (List.range' (i + 1) k) hothers hfirst hfits
  exact List.take_subset_take_left _ (by omega) hmem

end CacheLayer.LazyList
