/-!
# Finite tables

`Table K V` is a finite map kept as a list of pairs with distinct keys. The order of the pairs is
no part of its meaning: every lemma speaks through `get?`, which is the view of a table.

* `get?_insert`, `get?_erase`, `get?_keep` : what each operation does to the view.
* `mem_keys` : a key is listed exactly when it is bound, and `nodup_keys` lists it once.
-/

namespace CacheLayer

/-- A finite map from `K` to `V`. -/
structure Table (K : Type u) (V : Type v) where
  /-- The bound keys with their values. -/
  entries : List (K × V)
  /-- No key is bound twice. -/
  nodup : (entries.map Prod.fst).Nodup

namespace Table

variable {K : Type u} {V : Type v}

def empty : Table K V := ⟨[], by simp⟩

instance : Inhabited (Table K V) := ⟨empty⟩

/-- The bound keys, each once. -/
def keys (t : Table K V) : List K := t.entries.map Prod.fst

def values (t : Table K V) : List V := t.entries.map Prod.snd

def size (t : Table K V) : Nat := t.entries.length

/-- Keeps the bindings that satisfy `p`. -/
def keep (p : K → V → Bool) (t : Table K V) : Table K V :=
  ⟨t.entries.filter fun e => p e.1 e.2, (List.filter_sublist.map _).nodup t.nodup⟩

@[simp] theorem size_empty : (empty : Table K V).size = 0 := rfl

@[simp] theorem keys_empty : (empty : Table K V).keys = [] := rfl

theorem nodup_keys (t : Table K V) : t.keys.Nodup := t.nodup

@[simp] theorem length_keys (t : Table K V) : t.keys.length = t.size := by simp [keys, size]

variable [DecidableEq K]

def get? (t : Table K V) (k : K) : Option V := (t.entries.find? fun e => e.1 = k).map Prod.snd

def contains (t : Table K V) (k : K) : Bool := (t.get? k).isSome

def erase (t : Table K V) (k : K) : Table K V := t.keep fun k' _ => decide (k' ≠ k)

/-- Binds `k` to `v`, in place of what it was bound to. -/
def insert (t : Table K V) (k : K) (v : V) : Table K V :=
  ⟨(k, v) :: (t.erase k).entries, by
    have h := (t.erase k).nodup
    simp only [List.map_cons, List.nodup_cons]
    refine ⟨fun hk => ?_, h⟩
    obtain ⟨e, he, rfl⟩ := List.mem_map.1 hk
    simp [erase, keep] at he⟩

/-- Applies `f` to the value of `k`, if it is bound. -/
def modify (t : Table K V) (k : K) (f : V → V) : Table K V :=
  match t.get? k with
  | some v => t.insert k (f v)
  | none => t

/-- Binds every pair of the list, later ones over earlier ones. -/
def ofList (l : List (K × V)) : Table K V := l.foldl (fun t e => t.insert e.1 e.2) empty

/-! ## The view -/

@[simp] theorem get?_empty (k : K) : (empty : Table K V).get? k = none := rfl

theorem find?_filter_fst (l : List (K × V)) (k : K) (p : K × V → Bool) (hp : ∀ v, p (k, v) = true) :
    (l.filter p).find? (fun e => e.1 = k) = l.find? fun e => e.1 = k := by
  induction l with
  | nil => rfl
  | cons e l ih =>
    obtain ⟨k', v⟩ := e
    by_cases hk : k' = k
    · subst hk; simp [hp]
    · by_cases he : p (k', v) = true <;> simp [he, hk, ih]

@[simp] theorem get?_erase (t : Table K V) (k k' : K) :
    (t.erase k).get? k' = if k' = k then none else t.get? k' := by
  unfold get? erase keep
  by_cases h : k' = k
  · subst h
    rw [if_pos rfl, List.find?_eq_none.2]
    · rfl
    · intro e he
      simpa using (List.mem_filter.1 he).2
  · rw [if_neg h, find?_filter_fst _ _ _ (by intro v; simp [h])]

@[simp] theorem get?_insert (t : Table K V) (k k' : K) (v : V) :
    (t.insert k v).get? k' = if k' = k then some v else t.get? k' := by
  have h := get?_erase t k k'
  unfold get? at h ⊢
  by_cases hk : k' = k
  · subst hk; simp [insert]
  · have : ¬ k = k' := fun e => hk e.symm
    simpa [insert, this, hk] using h

theorem contains_eq (t : Table K V) (k : K) : t.contains k = (t.get? k).isSome := rfl

theorem mem_entries (t : Table K V) (k : K) (v : V) : (k, v) ∈ t.entries ↔ t.get? k = some v := by
  obtain ⟨l, hl⟩ := t
  unfold get?
  induction l with
  | nil => simp
  | cons e l ih =>
    obtain ⟨k', v'⟩ := e
    simp only [List.map_cons, List.nodup_cons] at hl
    by_cases hk : k' = k
    · subst hk
      have : ¬ (k', v) ∈ l := fun h => hl.1 (List.mem_map.2 ⟨_, h, rfl⟩)
      simp [this, eq_comm]
    · have hk' : ¬ k = k' := fun e => hk e.symm
      simp [hk, hk', ih hl.2]

theorem mem_keys (t : Table K V) (k : K) : k ∈ t.keys ↔ t.contains k = true := by
  rw [contains_eq, Option.isSome_iff_exists]
  simp only [keys, List.mem_map, ← mem_entries]
  exact ⟨fun ⟨⟨_, v⟩, h, e⟩ => ⟨v, e ▸ h⟩, fun ⟨v, h⟩ => ⟨_, h, rfl⟩⟩

theorem get?_keep (t : Table K V) (p : K → V → Bool) (k : K) :
    (t.keep p).get? k = (t.get? k).filter (p k) := by
  apply Option.ext
  intro v
  rw [← mem_entries, Option.filter_eq_some_iff, ← mem_entries]
  simp [keep]

end Table

/-- A finite set of keys. -/
abbrev KeySet (K : Type u) := Table K Unit

end CacheLayer
