import CacheLayer.Overflow.Disk
import CacheLayer.Proofs.Table
import Mathlib.Algebra.GroupWithZero.Nat

/-!
# The theory of recency lists

A recency list is seen through `keys`, the listed keys from the most recent on, and through
`weight?`. Every operation keeps `Sound`.

* `keys_remove`, `keys_pushFront`, `keys_moveToFront` : what the operations do to the order.
* `Sound.popBack_eq` : popping removes the last key.
* `trim_keys`, `Sound.trim`, `Sound.trim_fits` : trimming cuts off the end of the list, oldest key
  first, and leaves a list within the bound.
-/

namespace CacheLayer.Recency

variable {K : Type u}

@[simp] theorem keys_empty : (empty : Recency K).keys = [] := rfl

theorem sound_empty : (empty : Recency K).Sound := by simp [Sound, empty]

theorem Sound.nodup_keys {r : Recency K} (h : r.Sound) : r.keys.Nodup := h.1

theorem Sound.total_eq {r : Recency K} (h : r.Sound) : r.total = (r.items.map Prod.snd).sum := by
  rw [h.2, List.sum, List.foldr_map]

theorem length_keys (r : Recency K) : r.keys.length = r.size := by simp [keys, size]

theorem popBack_eq_none_iff (r : Recency K) : r.popBack = none ↔ r.keys = [] := by
  simp [popBack, keys]

theorem not_exceededBy_of_keys_eq_nil {r : Recency K} (h : r.Sound) (b : Bound)
    (hr : r.keys = []) : b.exceededBy r = false := by
  have hitems : r.items = [] := by simpa [keys] using hr
  cases b with
  | entries max => simp [Bound.exceededBy, size, hitems]
  | bytes max => simp [Bound.exceededBy, h.2, hitems]

variable [DecidableEq K]

@[simp] theorem weight?_empty (k : K) : (empty : Recency K).weight? k = none := rfl

theorem weight?_eq_none_iff (r : Recency K) (k : K) : r.weight? k = none ↔ k ∉ r.keys := by
  rw [weight?, Option.map_eq_none_iff]
  exact Table.find?_fst_eq_none_iff r.items k

theorem isSome_weight? (r : Recency K) (k : K) : (r.weight? k).isSome = decide (k ∈ r.keys) := by
  have h := weight?_eq_none_iff r k
  cases hw : r.weight? k with
  | none => simp [h.1 hw]
  | some w =>
    have : k ∈ r.keys := by
      by_contra hk
      rw [h.2 hk] at hw
      cases hw
    simp [this]

theorem mem_items_of_weight? {r : Recency K} {k : K} {w : Nat} (h : r.weight? k = some w) :
    (k, w) ∈ r.items := by
  unfold weight? at h
  obtain ⟨e, he, rfl⟩ := Option.map_eq_some_iff.1 h
  have hk : e.1 = k := by simpa using List.find?_some he
  exact hk ▸ List.mem_of_find?_eq_some he

theorem Sound.weight?_of_mem_items {r : Recency K} (h : r.Sound) {k : K} {w : Nat}
    (hmem : (k, w) ∈ r.items) : r.weight? k = some w := by
  have hlisted : k ∈ r.keys := List.mem_map.2 ⟨_, hmem, rfl⟩
  obtain ⟨w', hw'⟩ := Option.isSome_iff_exists.1 ((r.isSome_weight? k).trans (decide_eq_true hlisted))
  have hsame := List.inj_on_of_nodup_map h.nodup_keys hmem (mem_items_of_weight? hw') rfl
  rw [hw', (Prod.mk.inj hsame).2]

theorem Sound.mem_items_iff {r : Recency K} (h : r.Sound) (e : K × Nat) :
    e ∈ r.items ↔ r.weight? e.1 = some e.2 :=
  ⟨h.weight?_of_mem_items, mem_items_of_weight?⟩

theorem Sound.map_some_weights {r : Recency K} (h : r.Sound) :
    (r.items.map Prod.snd).map some = r.keys.map r.weight? := by
  rw [keys, List.map_map, List.map_map]
  exact List.map_congr_left fun e he => (h.weight?_of_mem_items he).symm

/-! ## Removing -/

theorem items_remove (r : Recency K) (k : K) :
    (r.remove k).items = r.items.filter fun e => decide (e.1 ≠ k) := by
  unfold remove
  cases h : r.weight? k with
  | some w => rfl
  | none =>
    rw [weight?_eq_none_iff] at h
    refine (List.filter_eq_self.2 fun e he => ?_).symm
    have : e.1 ≠ k := fun hk => h (List.mem_map.2 ⟨e, he, hk⟩)
    simpa using this

theorem keys_remove (r : Recency K) (k : K) :
    (r.remove k).keys = r.keys.filter fun k' => decide (k' ≠ k) := by
  rw [keys, items_remove, keys, List.filter_map]
  rfl

theorem filter_ne_of_not_mem {ks : List K} {k : K} (h : k ∉ ks) :
    (ks.filter fun k' => decide (k' ≠ k)) = ks :=
  List.filter_eq_self.2 fun _ hk' => decide_eq_true fun heq => h (heq ▸ hk')

theorem mem_keys_remove (r : Recency K) (k k' : K) :
    k' ∈ (r.remove k).keys ↔ k' ≠ k ∧ k' ∈ r.keys := by
  rw [keys_remove, List.mem_filter]
  simp [and_comm]

theorem remove_of_not_mem {r : Recency K} {k : K} (h : k ∉ r.keys) : r.remove k = r := by
  rw [remove, (weight?_eq_none_iff r k).2 h]

@[simp] theorem weight?_remove (r : Recency K) (k k' : K) :
    (r.remove k).weight? k' = if k' = k then none else r.weight? k' := by
  by_cases h : k' = k
  · rw [if_pos h, weight?_eq_none_iff, mem_keys_remove]
    exact fun hk => hk.1 h
  · rw [if_neg h, weight?, items_remove, Table.find?_filter_fst _ _ _ (by intro v; simp [h])]
    rfl

theorem sum_eq_add_filter (l : List (K × Nat)) (hl : (l.map Prod.fst).Nodup) (k : K) (w : Nat)
    (h : (k, w) ∈ l) :
    l.foldr (fun e n => e.2 + n) 0 =
      w + (l.filter fun e => decide (e.1 ≠ k)).foldr (fun e n => e.2 + n) 0 := by
  induction l with
  | nil => simp at h
  | cons e l ih =>
    simp only [List.map_cons, List.nodup_cons] at hl
    rcases List.mem_cons.1 h with rfl | h
    · have hfilter : (l.filter fun e => decide (e.1 ≠ k)) = l := by
        refine List.filter_eq_self.2 fun e he => ?_
        have : e.1 ≠ k := fun hk => hl.1 (List.mem_map.2 ⟨e, he, hk⟩)
        simpa using this
      rw [List.filter_cons_of_neg (by simp), hfilter, List.foldr_cons]
    · have hne : e.1 ≠ k := fun hk => hl.1 (List.mem_map.2 ⟨(k, w), h, hk.symm⟩)
      have := ih hl.2 h
      rw [List.filter_cons_of_pos (by simpa using hne), List.foldr_cons, List.foldr_cons, this]
      omega

theorem Sound.remove {r : Recency K} (h : r.Sound) (k : K) : (r.remove k).Sound := by
  refine ⟨?_, ?_⟩
  · rw [items_remove]
    exact (List.filter_sublist.map _).nodup h.1
  · cases hw : r.weight? k with
    | none =>
      rw [Recency.remove, hw]
      exact h.2
    | some w =>
      have htotal : (r.remove k).total = r.total - w := by rw [Recency.remove, hw]
      have hsum := sum_eq_add_filter r.items h.1 k w (mem_items_of_weight? hw)
      rw [items_remove, htotal, h.2, hsum]
      omega

theorem total_remove_le (r : Recency K) (k : K) : (r.remove k).total ≤ r.total := by
  unfold Recency.remove
  cases r.weight? k with
  | none => exact Nat.le_refl _
  | some w => exact Nat.sub_le _ _

theorem size_remove_le (r : Recency K) (k : K) : (r.remove k).size ≤ r.size := by
  unfold size
  rw [items_remove]
  exact List.length_filter_le _ _

/-! ## Moving to the front -/

theorem keys_pushFront (r : Recency K) (k : K) (w : Nat) :
    (r.pushFront k w).keys = k :: r.keys.filter fun k' => decide (k' ≠ k) := by
  rw [← keys_remove]
  rfl

theorem keys_pushFront_of_not_mem {r : Recency K} {k : K} (h : k ∉ r.keys) (w : Nat) :
    (r.pushFront k w).keys = k :: r.keys := by
  rw [keys_pushFront, filter_ne_of_not_mem h]

theorem mem_keys_pushFront (r : Recency K) (k k' : K) (w : Nat) :
    k' ∈ (r.pushFront k w).keys ↔ k' = k ∨ k' ∈ r.keys := by
  rw [keys_pushFront, List.mem_cons, List.mem_filter]
  by_cases h : k' = k <;> simp [h]

@[simp] theorem weight?_pushFront (r : Recency K) (k k' : K) (w : Nat) :
    (r.pushFront k w).weight? k' = if k' = k then some w else r.weight? k' := by
  have hrest := weight?_remove r k k'
  unfold weight? at hrest ⊢
  by_cases h : k' = k
  · subst h; simp [pushFront]
  · have : ¬ k = k' := fun e => h e.symm
    simpa [pushFront, this, h] using hrest

theorem Sound.pushFront {r : Recency K} (h : r.Sound) (k : K) (w : Nat) :
    (r.pushFront k w).Sound := by
  obtain ⟨hnodup, htotal⟩ := h.remove k
  refine ⟨?_, ?_⟩
  · show (k :: (r.remove k).keys).Nodup
    refine List.nodup_cons.2 ⟨?_, hnodup⟩
    rw [mem_keys_remove]
    exact fun hk => hk.1 rfl
  · show (r.remove k).total + w = w + _
    rw [htotal, Nat.add_comm]

theorem pushFront_remove (r : Recency K) (k : K) (w : Nat) :
    (r.remove k).pushFront k w = r.pushFront k w := by
  have h : k ∉ (r.remove k).keys := fun hk => ((mem_keys_remove r k k).1 hk).1 rfl
  rw [pushFront, pushFront, remove_of_not_mem h]

theorem size_pushFront_le (r : Recency K) (k : K) (w : Nat) :
    (r.pushFront k w).size ≤ r.size + 1 := Nat.succ_le_succ (size_remove_le r k)

theorem moveToFront_eq {r : Recency K} {k : K} {w : Nat} (h : r.weight? k = some w) :
    r.moveToFront k = r.pushFront k w := by rw [moveToFront, h]

theorem keys_moveToFront {r : Recency K} {k : K} (h : k ∈ r.keys) :
    (r.moveToFront k).keys = k :: r.keys.filter fun k' => decide (k' ≠ k) := by
  have := isSome_weight? r k
  obtain ⟨w, hw⟩ := Option.isSome_iff_exists.1 (this.trans (by simp [h]))
  rw [moveToFront_eq hw, keys_pushFront]

@[simp] theorem weight?_moveToFront (r : Recency K) (k k' : K) :
    (r.moveToFront k).weight? k' = r.weight? k' := by
  cases hw : r.weight? k with
  | none => rw [moveToFront, hw]
  | some w =>
    rw [moveToFront_eq hw, weight?_pushFront]
    split
    · rename_i h; rw [h, hw]
    · rfl

theorem Sound.moveToFront {r : Recency K} (h : r.Sound) (k : K) : (r.moveToFront k).Sound := by
  cases hw : r.weight? k with
  | none => rw [Recency.moveToFront, hw]; exact h
  | some w => rw [moveToFront_eq hw]; exact h.pushFront k w

theorem total_moveToFront {r : Recency K} (h : r.Sound) (k : K) :
    (r.moveToFront k).total = r.total := by
  cases hw : r.weight? k with
  | none => rw [Recency.moveToFront, hw]
  | some w =>
    have hsum := sum_eq_add_filter r.items h.1 k w (mem_items_of_weight? hw)
    rw [moveToFront_eq hw]
    show (r.remove k).total + w = r.total
    rw [(h.remove k).2, items_remove, h.2, hsum]
    omega

theorem mem_keys_moveToFront (r : Recency K) (k k' : K) :
    k' ∈ (r.moveToFront k).keys ↔ k' ∈ r.keys := by
  have hlisted := isSome_weight? (r.moveToFront k) k'
  rw [weight?_moveToFront, isSome_weight?] at hlisted
  simpa using hlisted.symm

theorem Sound.moveToFront_perm {r : Recency K} (h : r.Sound) (k : K) :
    (r.moveToFront k).items.Perm r.items := by
  have hmoved := h.moveToFront k
  rw [List.perm_ext_iff_of_nodup hmoved.nodup_keys.of_map h.nodup_keys.of_map]
  intro e
  rw [hmoved.mem_items_iff, h.mem_items_iff, weight?_moveToFront]

theorem size_moveToFront {r : Recency K} (h : r.Sound) (k : K) :
    (r.moveToFront k).size = r.size := (h.moveToFront_perm k).length_eq

/-! ## Popping and trimming -/

theorem Sound.popBack_eq {r rest : Recency K} {k : K} {w : Nat} (h : r.Sound)
    (hpop : r.popBack = some ((k, w), rest)) :
    rest = r.remove k ∧ r.weight? k = some w ∧ r.keys = rest.keys ++ [k] := by
  obtain ⟨e, he, heq⟩ := Option.map_eq_some_iff.1 hpop
  obtain ⟨rfl, rfl⟩ := Prod.mk.inj heq
  obtain ⟨front, hitems⟩ := List.getLast?_eq_some_iff.1 he
  have hnodup : (front.map Prod.fst ++ [k]).Nodup := by
    have := h.1
    rwa [hitems, List.map_append] at this
  have hfront : ∀ e ∈ front, e.1 ≠ k := fun e he hk =>
    (List.nodup_append.1 hnodup).2.2 e.1 (List.mem_map_of_mem he) k (by simp) hk
  have hweight : r.weight? k = some w := by
    unfold weight?
    rw [hitems, List.find?_append, List.find?_eq_none.2 fun e he => by simpa using hfront e he]
    simp
  refine ⟨?_, hweight, ?_⟩
  · rw [Recency.remove, hweight, hitems]
    simp only [List.dropLast_concat, List.filter_append, Recency.mk.injEq, and_true]
    rw [List.filter_eq_self.2 fun e he => by simpa using hfront e he]
    simp
  · simp [keys, hitems]

/-- The kept keys and the popped ones, the first popped last, are the keys before. -/
theorem trim_keys (tooFull : Recency K → Bool) (fuel : Nat) (r : Recency K) (h : r.Sound) :
    (trim tooFull fuel r).1.keys ++ (trim tooFull fuel r).2.reverse = r.keys := by
  induction fuel generalizing r with
  | zero => simp [trim]
  | succ fuel ih =>
    rw [trim]
    split
    · split
      · rename_i e rest hpop
        obtain ⟨rfl, -, hkeys⟩ := h.popBack_eq hpop
        rw [List.reverse_cons, ← List.append_assoc, ih _ (h.remove _), hkeys]
      · simp
    · simp

theorem Sound.trim {r : Recency K} (h : r.Sound) (tooFull : Recency K → Bool) (fuel : Nat) :
    (trim tooFull fuel r).1.Sound := by
  induction fuel generalizing r with
  | zero => exact h
  | succ fuel ih =>
    rw [Recency.trim]
    split
    · split
      · rename_i e rest hpop
        obtain ⟨rfl, -, -⟩ := h.popBack_eq hpop
        exact ih (h.remove _)
      · exact h
    · exact h

/-- What is left after trimming is the list without the popped keys. -/
theorem Sound.trim_eq {r : Recency K} (h : r.Sound) (tooFull : Recency K → Bool) (fuel : Nat) :
    (Recency.trim tooFull fuel r).1 = (Recency.trim tooFull fuel r).2.foldl Recency.remove r := by
  induction fuel generalizing r with
  | zero => rfl
  | succ fuel ih =>
    rw [Recency.trim]
    split
    · split
      · rename_i e rest hpop
        obtain ⟨rfl, -, -⟩ := h.popBack_eq hpop
        exact ih (h.remove _)
      · rfl
    · rfl

theorem mem_keys_foldl_remove (ks : List K) (r : Recency K) (k : K) :
    k ∈ (ks.foldl remove r).keys ↔ k ∈ r.keys ∧ k ∉ ks := by
  induction ks generalizing r with
  | nil => simp
  | cons k' ks ih =>
    rw [List.foldl_cons, ih, mem_keys_remove]
    by_cases h : k = k' <;> simp [h]

theorem weight?_foldl_remove (ks : List K) (r : Recency K) (k : K) :
    (ks.foldl remove r).weight? k = if k ∈ ks then none else r.weight? k := by
  induction ks generalizing r with
  | nil => simp
  | cons k' ks ih =>
    rw [List.foldl_cons, ih, weight?_remove]
    by_cases h : k = k' <;> simp [h]

theorem Sound.mem_keys_trim {r : Recency K} (h : r.Sound) (tooFull : Recency K → Bool)
    (fuel : Nat) (k : K) : k ∈ (Recency.trim tooFull fuel r).1.keys ↔
      k ∈ r.keys ∧ k ∉ (Recency.trim tooFull fuel r).2 := by
  rw [h.trim_eq, mem_keys_foldl_remove]

theorem Sound.trim_fits {r : Recency K} (h : r.Sound) (b : Bound) {fuel : Nat}
    (hfuel : r.size ≤ fuel) : b.exceededBy (Recency.trim b.exceededBy fuel r).1 = false := by
  induction fuel generalizing r with
  | zero =>
    refine not_exceededBy_of_keys_eq_nil h b ?_
    rw [← List.length_eq_zero_iff, length_keys]
    exact Nat.le_zero.1 hfuel
  | succ fuel ih =>
    rw [Recency.trim]
    split
    · split
      · rename_i e rest hpop
        obtain ⟨rfl, -, hkeys⟩ := h.popBack_eq hpop
        refine ih (h.remove _) ?_
        have := congrArg List.length hkeys
        rw [List.length_append, length_keys, length_keys, List.length_singleton] at this
        omega
      · rename_i hpop
        exact not_exceededBy_of_keys_eq_nil h b ((popBack_eq_none_iff r).1 hpop)
    · rename_i hfits
      simpa using hfits

theorem Sound.trim_entries {r : Recency K} (h : r.Sound) (max : Nat) {fuel : Nat}
    (hfuel : r.size ≤ fuel) :
    (Recency.trim (Bound.entries max).exceededBy fuel r).1.keys = r.keys.take max ∧
      (Recency.trim (Bound.entries max).exceededBy fuel r).2 = (r.keys.drop max).reverse := by
  have hsize : (Recency.trim (Bound.entries max).exceededBy fuel r).1.size = min max r.size := by
    induction fuel generalizing r with
    | zero =>
      show r.size = min max r.size
      omega
    | succ fuel ih =>
      rw [Recency.trim]
      split
      · rename_i hfull
        have hover : max < r.size := of_decide_eq_true hfull
        split
        · rename_i e rest hpop
          obtain ⟨rfl, -, hkeys⟩ := h.popBack_eq hpop
          have hlength := congrArg List.length hkeys
          rw [List.length_append, length_keys, length_keys, List.length_singleton] at hlength
          show (Recency.trim (Bound.entries max).exceededBy fuel (r.remove e.1)).1.size = _
          rw [ih (h.remove _) (by omega)]
          omega
        · rename_i hpop
          have hnil := (popBack_eq_none_iff r).1 hpop
          rw [← length_keys, hnil] at hover
          exact absurd hover (Nat.not_lt_zero max)
      · rename_i hfits
        have hle : ¬ max < r.size := fun hlt => hfits (decide_eq_true hlt)
        show r.size = min max r.size
        omega
  -- the kept keys come before the popped ones, so their number says which they are
  have hkeys := trim_keys (Bound.entries max).exceededBy fuel r h
  rw [← length_keys, ← length_keys] at hsize
  generalize (Recency.trim (Bound.entries max).exceededBy fuel r).1.keys = kept at hkeys hsize ⊢
  generalize (Recency.trim (Bound.entries max).exceededBy fuel r).2 = popped at hkeys ⊢
  rw [← hkeys] at hsize ⊢
  by_cases hle : kept.length = max
  · rw [← hle, List.take_left, List.drop_left, List.reverse_reverse]
    exact ⟨rfl, rfl⟩
  · have hnone : popped = [] := by
      rw [List.length_append, List.length_reverse] at hsize
      exact List.eq_nil_of_length_eq_zero (by omega)
    rw [hnone, List.reverse_nil, List.append_nil] at hsize ⊢
    rw [List.take_of_length_le (by omega), List.drop_of_length_le (by omega)]
    exact ⟨rfl, rfl⟩

theorem Sound.trim_cases {r : Recency K} (h : r.Sound) {max fuel : Nat} (hfuel : r.size ≤ fuel)
    (hroom : r.keys.length ≤ max + 1) :
    (r.keys.length ≤ max ∧ Recency.trim (Bound.entries max).exceededBy fuel r = (r, [])) ∨
    ∃ k, r.keys = (r.remove k).keys ++ [k] ∧ (r.remove k).keys.length = max ∧
      Recency.trim (Bound.entries max).exceededBy fuel r = (r.remove k, [k]) := by
  obtain ⟨hkept, hpopped⟩ := h.trim_entries max hfuel
  have hrest := h.trim_eq (Bound.entries max).exceededBy fuel
  by_cases hfits : r.keys.length ≤ max
  · rw [List.drop_of_length_le hfits] at hpopped
    rw [hpopped] at hrest
    exact .inl ⟨hfits, Prod.ext hrest hpopped⟩
  · obtain ⟨k, hk⟩ : ∃ k, r.keys.drop max = [k] := by
      apply List.length_eq_one_iff.1
      rw [List.length_drop]
      omega
    rw [hk] at hpopped
    rw [hpopped] at hrest
    have hremove : (r.remove k).keys = r.keys.take max := by
      rw [← hkept, hrest]
      rfl
    refine .inr ⟨k, ?_, ?_, Prod.ext hrest hpopped⟩
    · rw [hremove, ← hk, List.take_append_drop]
    · rw [hremove, List.length_take]
      omega

theorem not_exceededBy_remove {r : Recency K} {b : Bound} (h : b.exceededBy r = false) (k : K) :
    b.exceededBy (r.remove k) = false := by
  have hsize := size_remove_le r k
  have htotal := total_remove_le r k
  cases b with
  | entries max => simp only [Bound.exceededBy, decide_eq_false_iff_not] at h ⊢; omega
  | bytes max => simp only [Bound.exceededBy, decide_eq_false_iff_not] at h ⊢; omega

theorem not_exceededBy_moveToFront {r : Recency K} {b : Bound} (hr : r.Sound)
    (h : b.exceededBy r = false) (k : K) : b.exceededBy (r.moveToFront k) = false := by
  cases b with
  | entries max => simpa [Bound.exceededBy, size_moveToFront hr k] using h
  | bytes max => simpa [Bound.exceededBy, total_moveToFront hr k] using h

end CacheLayer.Recency
