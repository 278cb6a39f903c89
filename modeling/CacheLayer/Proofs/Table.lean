import CacheLayer.Table
import Mathlib.Data.List.Nodup

/-!
# More on finite tables

What the operations do to membership and to the size, and that the listed keys are determined by
membership up to order.
-/

namespace CacheLayer

theorem filter_filter_of_imp {α : Type u} {p q : α → Bool} (h : ∀ a, q a = true → p a = true)
    (o : Option α) : (o.filter p).filter q = o.filter q := by
  rw [Option.filter_filter]
  congr 1
  funext a
  cases hq : q a with
  | true => rw [h a hq, Bool.and_self]
  | false => rw [Bool.and_false]

theorem bind_filter_const {α : Type u} {β : Type v} (o : Option α) (kept : Bool)
    (f : α → Option β) : (o.filter fun _ => kept).bind f = if kept then o.bind f else none := by
  cases o with
  | none => simp
  | some a =>
    rw [Option.filter_some]
    cases kept <;> rfl

end CacheLayer

namespace CacheLayer.Table

variable {K : Type u} {V : Type v}

theorem keys_filterMap_sublist (f : K × α → Option β) (l : List (K × α)) :
    (l.filterMap fun e => (f e).map fun _ => e.1).Sublist (l.map Prod.fst) := by
  induction l with
  | nil => exact List.Sublist.slnil
  | cons e l ih =>
    rw [List.filterMap_cons, List.map_cons]
    cases f e with
    | none => exact ih.cons e.1
    | some b => exact ih.cons_cons e.1

variable [DecidableEq K]

theorem find?_fst_eq_none_iff (l : List (K × V)) (k : K) :
    l.find? (fun e => e.1 = k) = none ↔ k ∉ l.map Prod.fst := by
  rw [List.find?_eq_none]
  constructor
  · intro h hk
    obtain ⟨e, he, rfl⟩ := List.mem_map.1 hk
    simpa using h e he
  · intro h e he hek
    exact h (List.mem_map.2 ⟨e, he, by simpa using hek⟩)

@[simp] theorem contains_empty (k : K) : (empty : Table K V).contains k = false := rfl

@[simp] theorem contains_erase (t : Table K V) (k k' : K) :
    (t.erase k).contains k' = (decide (k' ≠ k) && t.contains k') := by
  by_cases h : k' = k <;> simp [contains, h]

@[simp] theorem contains_insert (t : Table K V) (k k' : K) (v : V) :
    (t.insert k v).contains k' = (decide (k' = k) || t.contains k') := by
  by_cases h : k' = k <;> simp [contains, h]

theorem contains_insert_of_contains {t : Table K V} {k : K} (hk : t.contains k = true) (k' : K)
    (v : V) : (t.insert k v).contains k' = t.contains k' := by
  rw [contains_insert]
  by_cases h : k' = k
  · rw [h, hk, Bool.or_true]
  · rw [decide_eq_false h, Bool.false_or]

theorem contains_of_get? {t : Table K V} {k : K} {v : V} (h : t.get? k = some v) :
    t.contains k = true := by
  simp [contains, h]

theorem get?_of_contains {t : Table K V} {k : K} (h : t.contains k = true) :
    ∃ v, t.get? k = some v := Option.isSome_iff_exists.1 h

theorem get?_eq_none_of_contains {t : Table K V} {k : K} (h : t.contains k = false) :
    t.get? k = none := by
  simpa [contains] using h

theorem mem_values (t : Table K V) (v : V) : v ∈ t.values ↔ ∃ k, t.get? k = some v := by
  rw [values, List.mem_map]
  constructor
  · rintro ⟨⟨k, v'⟩, he, rfl⟩
    exact ⟨k, (t.mem_entries k v').1 he⟩
  · rintro ⟨k, hget⟩
    exact ⟨(k, v), (t.mem_entries k v).2 hget, rfl⟩

theorem map_some_values (t : Table K V) : t.values.map some = t.keys.map t.get? := by
  rw [values, keys, List.map_map, List.map_map]
  exact List.map_congr_left fun e he => ((t.mem_entries e.1 e.2).1 he).symm

theorem get?_erase_of_imp {t t' : Table K V} (h : ∀ k v, t.get? k = some v → t'.get? k = some v)
    {k k' : K} {v : V} (hget : (t.erase k).get? k' = some v) : (t'.erase k).get? k' = some v := by
  rw [get?_erase] at hget ⊢
  split at hget
  · cases hget
  · rename_i hk
    rw [if_neg hk]
    exact h k' v hget

theorem get?_modify (t : Table K V) (k k' : K) (f : V → V) :
    (t.modify k f).get? k' = if k' = k then (t.get? k).map f else t.get? k' := by
  unfold modify
  cases h : t.get? k with
  | none => by_cases hk : k' = k <;> simp [hk, h]
  | some v => by_cases hk : k' = k <;> simp [hk]

theorem erase_of_not_contains {t : Table K V} {k : K} (h : t.contains k = false) :
    t.erase k = t := by
  have hentries : (t.erase k).entries = t.entries := by
    refine List.filter_eq_self.2 fun e he => ?_
    have hne : e.1 ≠ k := fun hk => by
      have := (t.mem_entries k e.2).1 (hk ▸ he)
      rw [contains_of_get? this] at h
      cases h
    simpa using hne
  obtain ⟨entries, nodup⟩ := t
  simp only [erase, keep, mk.injEq] at hentries ⊢
  exact hentries

theorem insert_erase (t : Table K V) (k : K) (v : V) : (t.erase k).insert k v = t.insert k v := by
  have h : (t.erase k).contains k = false := by simp
  unfold insert
  simp only [erase_of_not_contains h]

theorem contains_foldl_erase (ks : List K) (t : Table K V) (k : K) :
    (ks.foldl erase t).contains k = (decide (k ∉ ks) && t.contains k) := by
  induction ks generalizing t with
  | nil => simp
  | cons k' ks ih =>
    rw [List.foldl_cons, ih, contains_erase]
    by_cases h : k = k' <;> simp [h]

theorem get?_foldl_erase (ks : List K) (t : Table K V) (k : K) :
    (ks.foldl erase t).get? k = if k ∈ ks then none else t.get? k := by
  induction ks generalizing t with
  | nil => simp
  | cons k' ks ih =>
    rw [List.foldl_cons, ih, get?_erase]
    by_cases h : k = k' <;> by_cases hk : k ∈ ks <;> simp [h, hk]

theorem keys_perm {t : Table K V} {ks : List K} (hks : ks.Nodup)
    (h : ∀ k, t.contains k = true ↔ k ∈ ks) : t.keys.Perm ks := by
  rw [List.perm_ext_iff_of_nodup t.nodup_keys hks]
  intro k
  rw [mem_keys, h]

/-! ## Sizes -/

theorem size_erase_le (t : Table K V) (k : K) : (t.erase k).size ≤ t.size := List.length_filter_le ..

theorem size_erase_lt {t : Table K V} {k : K} (h : t.contains k = true) :
    (t.erase k).size < t.size := by
  obtain ⟨v, hv⟩ := get?_of_contains h
  exact List.length_filter_lt_length_iff_exists.2 ⟨(k, v), (t.mem_entries k v).2 hv, by simp⟩

theorem size_erase_add_one {t : Table K V} {k : K} (h : t.contains k = true) :
    (t.erase k).size + 1 = t.size := by
  have hkeys : (t.erase k).keys = t.keys.erase k := by
    rw [t.nodup_keys.erase_eq_filter]
    unfold keys erase keep
    rw [List.filter_map]
    exact congrArg _ (List.filter_congr fun e _ => decide_not)
  rw [← length_keys, hkeys, List.length_erase_add_one ((t.mem_keys k).2 h), length_keys]

theorem size_insert (t : Table K V) (k : K) (v : V) :
    (t.insert k v).size + (if t.contains k = true then 1 else 0) = t.size + 1 := by
  have hcons : (t.insert k v).size = (t.erase k).size + 1 := rfl
  rw [hcons]
  split
  · rename_i hk
    rw [size_erase_add_one hk]
  · rename_i hk
    rw [erase_of_not_contains (Bool.eq_false_iff.2 hk)]

theorem size_insert_le (t : Table K V) (k : K) (v : V) : (t.insert k v).size ≤ t.size + 1 :=
  Nat.succ_le_succ (t.size_erase_le k)

theorem size_foldl_erase_le (ks : List K) (t : Table K V) : (ks.foldl erase t).size ≤ t.size := by
  induction ks generalizing t with
  | nil => exact Nat.le_refl _
  | cons k ks ih => exact Nat.le_trans (ih _) (t.size_erase_le k)

end CacheLayer.Table
