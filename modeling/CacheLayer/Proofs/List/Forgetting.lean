import CacheLayer.Proofs.List.Kept

/-!
# What a lazy list forgets

A list can give an element without asking for it as long as it holds the element, or left it to its heap
and the object is alive. When it looks something up it forgets handles, but none that is of use.

* `Has` : the elements that can be given.
* `Drops` : handles of dead objects are forgotten, and nothing else; `sweep_drops`, `lookUp_none`.
* `lookUp_some` : what is found was there.
-/

namespace CacheLayer.LazyList

variable {V : Type u}

/-- The element of the index is held, or it was left to the heap and is alive. -/
def Has (l : LazyList V) (w : World) (i : Nat) (s : Shared V) : Prop :=
  l.values.get? i = some s ∨ l.soft.get? i = some s ∧ l.alive w s = true

def reads (l : LazyList V) : Nat × Nat := (l.metrics.hits, l.metrics.misses)

/-- `l'` is `l` without some handles of dead objects. -/
structure Drops (w : World) (l l' : LazyList V) : Prop where
  settings : l.SameSettings l'
  hot : l'.hot = l.hot
  values : l'.values = l.values
  order : l'.heap.order = l.heap.order
  retained : l'.heap.retained = l.heap.retained
  reads : l'.reads = l.reads
  soft : ∀ i s, l'.soft.get? i = some s → l.soft.get? i = some s
  kept : ∀ i s, l.soft.get? i = some s → l.alive w s = true → l'.soft.get? i = some s

namespace Drops

variable {w : World} {l l' l'' : LazyList V}

theorem refl (w : World) (l : LazyList V) : l.Drops w l :=
  ⟨⟨rfl, rfl, rfl, rfl, rfl⟩, rfl, rfl, rfl, rfl, rfl, fun _ _ hsoft => hsoft,
    fun _ _ hsoft _ => hsoft⟩

theorem alive (h : l.Drops w l') : l'.alive w = l.alive w := by
  funext s
  unfold LazyList.alive SoftHeap.alive SoftHeap.retains
  rw [h.retained, h.values]

theorem trans (h : l.Drops w l') (h' : l'.Drops w l'') : l.Drops w l'' where
  settings := h.settings.trans h'.settings
  hot := h'.hot.trans h.hot
  values := h'.values.trans h.values
  order := h'.order.trans h.order
  retained := h'.retained.trans h.retained
  reads := h'.reads.trans h.reads
  soft i s hsoft := h.soft i s (h'.soft i s hsoft)
  kept i s hsoft halive := h'.kept i s (h.kept i s hsoft halive) (h.alive ▸ halive)

theorem has_iff (h : l.Drops w l') (i : Nat) (s : Shared V) : l'.Has w i s ↔ l.Has w i s := by
  unfold Has
  rw [h.values, h.alive]
  refine or_congr_right ⟨?_, ?_⟩
  · rintro ⟨hsoft, halive⟩
    exact ⟨h.soft i s hsoft, halive⟩
  · rintro ⟨hsoft, halive⟩
    exact ⟨h.kept i s hsoft halive, halive⟩

theorem owns (h : l.Drops w l') {i : Nat} {s : Shared V} (howns : l'.Owns i s) : l.Owns i s := by
  rcases howns with hvalue | hsoft
  · exact .inl (h.values ▸ hvalue)
  · exact .inr (h.soft i s hsoft)

end Drops

theorem drops_erased {l : LazyList V} {w : World} {i : Nat} {s : Shared V}
    (hsoft : l.soft.get? i = some s) (hdead : ¬ l.alive w s = true) :
    l.Drops w { l with
      soft := l.soft.erase i
      metrics := { l.metrics with reclaimed := l.metrics.reclaimed + 1 } } := by
  refine ⟨⟨rfl, rfl, rfl, rfl, rfl⟩, rfl, rfl, rfl, rfl, rfl, fun j t ht => ?_, fun j t ht halive => ?_⟩
  · have ht : (l.soft.erase i).get? j = some t := ht
    rw [Table.get?_erase] at ht
    split at ht
    · cases ht
    · exact ht
  · have hji : j ≠ i := by
      rintro rfl
      rw [Option.some.inj (ht.symm.trans hsoft)] at halive
      exact hdead halive
    show (l.soft.erase i).get? j = some t
    rw [Table.get?_erase, if_neg hji]
    exact ht

theorem forgetDead_drops (l : LazyList V) (w : World) (is : List Nat) :
    l.Drops w (l.forgetDead w is) := by
  induction is generalizing l with
  | nil => exact .refl w l
  | cons i is ih =>
    rw [forgetDead]
    split
    · exact ih l
    · rename_i s hsoft
      split
      · exact ih l
      · rename_i hdead
        exact (drops_erased hsoft hdead).trans (ih _)

theorem sweep_drops (l : LazyList V) (w : World) : l.Drops w (l.sweep w) := by
  have hdrained : l.Drops w { l with heap := l.heap.drain.2 } :=
    ⟨⟨rfl, rfl, rfl, rfl, rfl⟩, rfl, rfl, rfl, rfl, rfl, fun _ _ hsoft => hsoft,
      fun _ _ hsoft _ => hsoft⟩
  exact hdrained.trans (forgetDead_drops _ w l.heap.queue)

/-! ## Looking up -/

theorem takeIn_erased (l : LazyList V) (i : Nat) (s : Shared V) :
    ({ l with soft := l.soft.erase i } : LazyList V).takeIn i s = l.takeIn i s := by
  have herase : (l.soft.erase i).erase i = l.soft.erase i :=
    Table.erase_of_not_contains (by simp)
  unfold takeIn
  dsimp only
  rw [herase]

variable {l l' : LazyList V} {w : World} {i : Nat} {s : Shared V}

theorem lookUp_some (h : l.lookUp w i = (some s, l')) :
    l.Has w i s ∧ (l' = { l with hot := l.hot.moveToFront i } ∨ l' = l.takeIn i s) := by
  unfold lookUp at h
  split at h
  · rename_i t hvalue
    obtain ⟨ht, rfl⟩ := Prod.mk.inj h
    exact ⟨.inl (hvalue.trans ht), .inl rfl⟩
  · split at h
    · cases h
    · rename_i t hsoft
      dsimp only at h
      split at h
      · rename_i halive
        obtain ⟨ht, rfl⟩ := Prod.mk.inj h
        obtain rfl := Option.some.inj ht
        exact ⟨.inr ⟨hsoft, halive⟩, .inr (takeIn_erased l i t)⟩
      · cases h

theorem lookUp_none (h : l.lookUp w i = (none, l')) :
    l.values.get? i = none ∧ (∀ s, ¬ l.Has w i s) ∧ l.Drops w l' := by
  unfold lookUp at h
  split at h
  · cases h
  · rename_i hvalue
    refine ⟨hvalue, ?_⟩
    split at h
    · rename_i hsoft
      obtain ⟨-, rfl⟩ := Prod.mk.inj h
      refine ⟨?_, .refl w l⟩
      rintro s (hs | ⟨hs, -⟩)
      · rw [hvalue] at hs
        cases hs
      · rw [hsoft] at hs
        cases hs
    · rename_i t hsoft
      dsimp only at h
      split at h
      · cases h
      · rename_i hdead
        obtain ⟨-, rfl⟩ := Prod.mk.inj h
        refine ⟨?_, drops_erased hsoft hdead⟩
        rintro s (hs | ⟨hs, halive⟩)
        · rw [hvalue] at hs
          cases hs
        · rw [Option.some.inj (hs.symm.trans hsoft)] at halive
          exact hdead halive

end CacheLayer.LazyList
