import CacheLayer.Proofs.Events
import CacheLayer.Proofs.Presence

/-!
# What a volatile cache tells, counts and shows

A sweep tells of every entry that it drops and counts it as expired; the other operations tell of at
most one entry. Entries are told of with the objects that were stored.

* `insert_cases` : an insertion stores, and sweeps a shard or does not.
* `tell_insert`, `tell_remove`, `tell_get`, `tell_sweepAll` : what is told is counted.
* `Recalls` : the entries are those stored last; `Recalls.shown` : and so are those told of.
-/

namespace CacheLayer.Volatile

variable {K : Type u} {V : Type v} {c : Volatile K V} {now : Nat} {event : Eviction K V}
  {x : Shared V}

/-! ## What is told is counted -/

def books (c : Volatile K V) : Books := ⟨c.metrics, 0⟩

theorem tell_foldl_expired (gone : List ((K × Entry V) × Expiration)) (m : Metrics) :
    Books.Tell ⟨m, 0⟩ ⟨gone.foldl (fun m g => m.expired g.2) m, 0⟩
      (gone.map fun g => (⟨g.1.1, some g.1.2.value, .expired⟩ : Eviction K V)) 0 := by
  induction gone generalizing m with
  | nil => exact .refl _
  | cons g gone ih => exact (Books.Tell.expire m 0 g.1.1 (some g.1.2.value) g.2).trans (ih _)

theorem tell_sweep (c : Volatile K V) (now i : Nat) :
    Books.Tell c.books (c.sweep now i).cache.books (c.sweep now i).events 0 := by
  unfold sweep
  split
  · exact .refl _
  · exact tell_foldl_expired _ c.metrics

theorem tell_sweepAll (is : List Nat) (c : Volatile K V) (now : Nat) :
    Books.Tell c.books (c.sweepAll now is).cache.books (c.sweepAll now is).events 0 := by
  induction is generalizing c with
  | nil => exact .refl _
  | cons i is ih => exact (c.tell_sweep now i).trans (ih _)

variable [DecidableEq K] {k : K} {value : Shared V}

/-- The cache after a value was stored and the generator was drawn from. -/
def inserted (c : Volatile K V) (now : Nat) (k : K) (value : Shared V) (generator : Weyl) :
    Volatile K V :=
  { c.store k ⟨value, 1, .create now c.timeToLive c.timeToIdle⟩ with
    metrics := { c.metrics with inserts := c.metrics.inserts + 1 }
    generator }

theorem insert_cases (c : Volatile K V) (now : Nat) (k : K) (value : Shared V) :
    ∃ generator, c.insert now k value = ⟨(), c.inserted now k value generator, []⟩ ∨
      ∃ i, c.insert now k value = (c.inserted now k value generator).sweep now i := by
  unfold insert
  dsimp only
  split
  · exact ⟨_, .inr ⟨_, rfl⟩⟩
  · exact ⟨_, .inl rfl⟩

theorem tell_insert (c : Volatile K V) (now : Nat) (k : K) (value : Shared V) :
    Books.Tell c.books (c.insert now k value).cache.books (c.insert now k value).events 0 := by
  obtain ⟨generator, hinsert | ⟨i, hinsert⟩⟩ := c.insert_cases now k value
  · rw [hinsert]
    exact .insert c.metrics 0
  · rw [hinsert]
    have hcounted : Books.Tell c.books (c.inserted now k value generator).books
        ([] : List (Eviction K V)) 0 := .insert c.metrics 0
    exact hcounted.trans ((c.inserted now k value generator).tell_sweep now i)

theorem tell_remove (c : Volatile K V) (now : Nat) (k : K) :
    Books.Tell c.books (c.remove now k).cache.books (c.remove now k).events 0 := by
  unfold Volatile.remove
  split
  · exact .refl _
  · rename_i e _
    split
    · rename_i x _
      exact .expire c.metrics 0 k (some e.value) x
    · exact .remove c.metrics 0 k (some e.value)

theorem tell_get (c : Volatile K V) (now : Nat) (k : K) :
    Books.Tell c.books (c.get now k).cache.books (c.get now k).events 1 := by
  unfold Volatile.get
  split
  · exact .miss c.metrics 0
  · rename_i e _
    split
    · rename_i x _
      exact (Books.Tell.expire c.metrics 0 k (some e.value) x).trans (.miss _ 0)
    · dsimp only
      split <;> exact .hit c.metrics 0

/-! ## What is shown was stored last -/

def Recalls (c : Volatile K V) (stored : K → Option (Shared V)) : Prop :=
  ∀ k e, c.stored? k = some e → stored k = some e.value

variable {stored : K → Option (Shared V)}

theorem Placed.stored?_of_shard (h : c.Placed) {i : Nat} {e : Entry V}
    (hget : (c.shard i).get? k = some e) : c.stored? k = some e := by
  rw [h.own i k (Table.contains_of_get? hget)] at hget
  exact hget

theorem Recalls.sweepAll (h : c.Recalls stored) (is : List Nat) :
    (c.sweepAll now is).cache.Recalls stored :=
  fun k e he => h k e (stored?_sweepAll is he)

theorem Recalls.remove (h : c.Recalls stored) (k : K) :
    (c.remove now k).cache.Recalls stored := by
  intro k' e he
  rw [stored?_remove] at he
  split at he
  · cases he
  · exact h k' e he

theorem Recalls.get (h : c.Recalls stored) (hc : c.Placed) (k : K) :
    (c.get now k).cache.Recalls stored := by
  intro k' e he
  unfold Volatile.get at he
  split at he
  · exact h k' e he
  · rename_i e₀ hstored
    split at he
    · have he : (c.erase k).stored? k' = some e := he
      rw [stored?_erase] at he
      split at he
      · cases he
      · exact h k' e he
    · dsimp only at he
      split at he
      · have he : (c.store k { e₀ with stamps := e₀.stamps.touch now }).stored? k' = some e := he
        rw [hc.stored?_store] at he
        split at he
        · rename_i hk
          obtain rfl := Option.some.inj he
          rw [hk]
          exact h k e₀ hstored
        · exact h k' e he
      · exact h k' e he

theorem Recalls.inserted (h : c.Recalls stored) (hc : c.Placed) (generator : Weyl) :
    (c.inserted now k value generator).Recalls (Function.update stored k (some value)) := by
  intro k' e he
  have he : (c.store k _).stored? k' = some e := he
  rw [hc.stored?_store] at he
  split at he
  · rename_i hk
    rw [← Option.some.inj he, hk, Function.update_self]
  · rename_i hk
    rw [Function.update_of_ne hk]
    exact h k' e he

theorem Recalls.shown_sweep (h : c.Recalls stored) (hc : c.Placed) {i : Nat}
    (hevent : event ∈ (c.sweep now i).events) (hx : event.value = some x) :
    stored event.key = some x := by
  unfold sweep at hevent
  split at hevent
  · cases hevent
  · obtain ⟨⟨⟨k, e⟩, reason⟩, hgone, rfl⟩ := List.mem_map.1 hevent
    obtain ⟨⟨k', e'⟩, hentry, hexpired⟩ := List.mem_filterMap.1 hgone
    obtain ⟨_, -, heq⟩ := Option.map_eq_some_iff.1 hexpired
    cases heq
    cases hx
    exact h k e (hc.stored?_of_shard ((Table.mem_entries _ _ _).1 hentry))

theorem Recalls.shown_sweepAll (is : List Nat) (h : c.Recalls stored) (hc : c.Placed)
    (hevent : event ∈ (c.sweepAll now is).events) (hx : event.value = some x) :
    stored event.key = some x := by
  induction is generalizing c with
  | nil => cases hevent
  | cons i is ih =>
    rcases List.mem_append.1 hevent with hfirst | hlater
    · exact h.shown_sweep hc hfirst hx
    · exact ih (fun k e he => h k e (stored?_sweep he)) ((c.sweep_forgets now i).placed hc) hlater

theorem Placed.inserted (hc : c.Placed) (generator : Weyl) :
    (c.inserted now k value generator).Placed := (hc.store k _).congr rfl rfl

theorem Recalls.insert (h : c.Recalls stored) (hc : c.Placed) :
    (c.insert now k value).cache.Recalls (Function.update stored k (some value)) := by
  obtain ⟨generator, hinsert | ⟨i, hinsert⟩⟩ := c.insert_cases now k value
  · rw [hinsert]
    exact h.inserted hc generator
  · rw [hinsert]
    exact fun k' e he => h.inserted hc generator k' e (stored?_sweep he)

theorem Recalls.shown_insert (h : c.Recalls stored) (hc : c.Placed)
    (hevent : event ∈ (c.insert now k value).events) (hx : event.value = some x) :
    Function.update stored k (some value) event.key = some x := by
  obtain ⟨generator, hinsert | ⟨i, hinsert⟩⟩ := c.insert_cases now k value
  · rw [hinsert] at hevent
    cases hevent
  · rw [hinsert] at hevent
    exact (h.inserted hc generator).shown_sweep (hc.inserted generator) hevent hx

theorem Recalls.shown_remove (h : c.Recalls stored) (hevent : event ∈ (c.remove now k).events)
    (hx : event.value = some x) : stored event.key = some x := by
  unfold Volatile.remove at hevent
  split at hevent
  · cases hevent
  · rename_i e hstored
    split at hevent
    all_goals
      rw [List.mem_singleton.1 hevent] at hx ⊢
      rw [h k e hstored]
      exact hx

theorem Recalls.shown_get (h : c.Recalls stored) (hevent : event ∈ (c.get now k).events)
    (hx : event.value = some x) : stored event.key = some x := by
  unfold Volatile.get at hevent
  split at hevent
  · cases hevent
  · rename_i e hstored
    split at hevent
    · rw [List.mem_singleton.1 hevent] at hx ⊢
      rw [h k e hstored]
      exact hx
    · cases hevent

end CacheLayer.Volatile
