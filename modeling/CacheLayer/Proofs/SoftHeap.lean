import CacheLayer.Proofs.Recency
import CacheLayer.Proofs.Table
import CacheLayer.SoftHeap

/-!
# What a soft heap keeps alive

* `retains_iff` : an object is retained if it is retained under some key.
* `Within` : nothing is retained that was not retained before. Giving up values, on request or beyond
  the capacity, is within.
* `Op`, `apply` : what others may do to a heap; `apply_within` : it is within.
* `retain_spec` : a heap lists what it retains, the most recent first, and gives up the rest.
* `alive_release` : an object outlives a released key if something else keeps it alive.
* `Sound` : a heap retains what it lists and no more than its capacity; every operation keeps it so.
-/

namespace CacheLayer.SoftHeap

variable {K : Type u} {V : Type v} [DecidableEq K]

theorem retains_iff (h : SoftHeap K V) (id : Nat) :
    h.retains id = true ↔ ∃ k s, h.retained.get? k = some s ∧ s.id = id := by
  rw [retains, List.any_eq_true]
  constructor
  · rintro ⟨s, hs, hid⟩
    obtain ⟨k, hget⟩ := (h.retained.mem_values s).1 hs
    exact ⟨k, s, hget, of_decide_eq_true hid⟩
  · rintro ⟨k, s, hget, hid⟩
    exact ⟨s, (h.retained.mem_values s).2 ⟨k, hget⟩, decide_eq_true hid⟩

theorem alive_iff (h : SoftHeap K V) (w : World) (s : Shared V) :
    h.alive w s = true ↔
      (∃ k s', h.retained.get? k = some s' ∧ s'.id = s.id) ∨ w.holds s.id = true := by
  rw [alive, Bool.or_eq_true, retains_iff]

theorem alive_of_retained {h : SoftHeap K V} {k : K} {s : Shared V}
    (hget : h.retained.get? k = some s) (w : World) : h.alive w s = true :=
  (h.alive_iff w s).2 (.inl ⟨k, s, hget, rfl⟩)

/-! ## Giving up -/

def Within (h' h : SoftHeap K V) : Prop :=
  ∀ k s, h'.retained.get? k = some s → h.retained.get? k = some s

theorem Within.refl (h : SoftHeap K V) : h.Within h := fun _ _ hget => hget

theorem Within.trans {h h' h'' : SoftHeap K V} (hlate : h''.Within h') (hearly : h'.Within h) :
    h''.Within h := fun k s hget => hearly k s (hlate k s hget)

theorem within_of_erase {h h' : SoftHeap K V} {k : K} (hretained : h'.retained = h.retained.erase k) :
    h'.Within h := by
  intro k' s hget
  rw [hretained, Table.get?_erase] at hget
  split at hget
  · cases hget
  · exact hget

theorem dropOldest_within {h rest : SoftHeap K V} {n : Nat} (hdrop : h.dropOldest = some (n, rest)) :
    rest.Within h := by
  obtain ⟨popped, -, hrest⟩ := Option.map_eq_some_iff.1 hdrop
  exact within_of_erase (congrArg (fun out => out.2.retained) hrest).symm

theorem settle_within (fuel : Nat) (h : SoftHeap K V) : (settle fuel h).Within h := by
  induction fuel generalizing h with
  | zero => exact .refl h
  | succ fuel ih =>
    rw [settle]
    split
    · split
      · rename_i n rest hdrop
        exact (ih rest).trans (dropOldest_within hdrop)
      · exact .refl h
    · exact .refl h

theorem reclaimFrom_within (fuel count : Nat) (h : SoftHeap K V) :
    (reclaimFrom fuel count h).2.Within h := by
  induction fuel generalizing count h with
  | zero => exact .refl h
  | succ fuel ih =>
    rw [reclaimFrom]
    split
    · exact .refl h
    · split
      · exact .refl h
      · rename_i dropped rest hdrop
        exact (ih (count - dropped) rest).trans (dropOldest_within hdrop)

theorem retained_retain {h : SoftHeap K V} {k k' : K} {s s' : Shared V}
    (hget : (h.retain k s).retained.get? k' = some s') :
    (if k' = k then some s else h.retained.get? k') = some s' := by
  have hsettled := settle_within _ _ k' s' hget
  rwa [Table.get?_insert] at hsettled

/-! ## The order of a heap -/

/-- Giving up the oldest values beyond the capacity is trimming the list of their keys. -/
theorem settle_eq (fuel : Nat) (h : SoftHeap K V) :
    settle fuel h =
      let cut := Recency.trim (Bound.entries h.capacity).exceededBy fuel h.order
      { h with
        order := cut.1
        retained := cut.2.foldl Table.erase h.retained
        queue := h.queue ++ cut.2 } := by
  induction fuel generalizing h with
  | zero =>
    show h = { h with queue := h.queue ++ [] }
    rw [List.append_nil]
  | succ fuel ih =>
    have hkept : h = { h with queue := h.queue ++ [] } := by rw [List.append_nil]
    rw [settle, Recency.trim]
    by_cases hfull : h.capacity < h.size
    · have hexceeded : (Bound.entries h.capacity).exceededBy h.order = true := decide_eq_true hfull
      rw [if_pos hfull, if_pos hexceeded, dropOldest]
      cases h.order.popBack with
      | none => exact hkept
      | some popped =>
        refine (ih _).trans ?_
        simp only [List.append_assoc]
        rfl
    · have hexceeded : ¬ (Bound.entries h.capacity).exceededBy h.order = true := fun hexceeded =>
        hfull (of_decide_eq_true hexceeded)
      rw [if_neg hfull, if_neg hexceeded]
      exact hkept

theorem capacity_retain (h : SoftHeap K V) (k : K) (s : Shared V) :
    (h.retain k s).capacity = h.capacity := by
  have hretain : h.retain k s = _ := settle_eq _ _
  rw [hretain]

theorem retain_spec {h : SoftHeap K V} (horder : h.order.Sound) (k : K) (s : Shared V) :
    let keys := k :: h.order.keys.filter fun k' => decide (k' ≠ k)
    (h.retain k s).order.keys = keys.take h.capacity ∧ (h.retain k s).order.Sound ∧
      (h.retain k s).capacity = h.capacity ∧
      ∀ k', (h.retain k s).retained.get? k' = if k' ∈ keys.drop h.capacity then none
        else if k' = k then some s else h.retained.get? k' := by
  have hpushed := horder.pushFront k 1
  obtain ⟨hkept, hpopped⟩ := hpushed.trim_entries h.capacity (Nat.le_refl _)
  have hretain : h.retain k s = _ := settle_eq _ _
  rw [Recency.keys_pushFront] at hkept hpopped
  rw [hretain]
  refine ⟨hkept, hpushed.trim _ _, rfl, fun k' => ?_⟩
  dsimp only
  rw [Table.get?_foldl_erase, Table.get?_insert, size, hpopped]
  simp only [List.mem_reverse]

theorem queue_retain {h : SoftHeap K V} (horder : h.order.Sound) (k : K) (s : Shared V) :
    (h.retain k s).queue = h.queue ++
      ((k :: h.order.keys.filter fun k' => decide (k' ≠ k)).drop h.capacity).reverse := by
  obtain ⟨-, hpopped⟩ := (horder.pushFront k 1).trim_entries h.capacity (Nat.le_refl _)
  have hretain : h.retain k s = _ := settle_eq _ _
  rw [Recency.keys_pushFront] at hpopped
  rw [hretain, ← hpopped]
  rfl

/-! ## What others do -/

inductive Op (K : Type u) where
  | touch (k : K)
  | release (k : K)
  | reclaim (count : Nat)
  | reclaimAll
  | drain
  | clear

def apply (h : SoftHeap K V) : Op K → SoftHeap K V
  | .touch k => h.touch k
  | .release k => (h.release k).2
  | .reclaim count => (h.reclaim count).2
  | .reclaimAll => h.reclaimAll.2
  | .drain => h.drain.2
  | .clear => h.clear

theorem clear_within (h : SoftHeap K V) : h.clear.Within h := nofun

theorem apply_within (h : SoftHeap K V) (op : Op K) : (h.apply op).Within h := by
  cases op with
  | touch k => exact .refl h
  | release k => exact within_of_erase rfl
  | reclaim count => exact reclaimFrom_within _ count h
  | reclaimAll => exact reclaimFrom_within _ maxCount h
  | drain => exact .refl h
  | clear => exact clear_within h

/-! ## Releasing a key -/

/-- An object is alive after a key was released if another key retains it or somebody outside holds
it. -/
theorem alive_release (h : SoftHeap K V) (w : World) (k : K) (s : Shared V) :
    (h.release k).2.alive w s = true ↔
      (∃ k' s', k' ≠ k ∧ h.retained.get? k' = some s' ∧ s'.id = s.id) ∨ w.holds s.id = true := by
  rw [alive_iff]
  have hget (k' : K) : (h.release k).2.retained.get? k' =
      if k' = k then none else h.retained.get? k' := Table.get?_erase _ _ _
  constructor
  · rintro (⟨k', s', hretained, hid⟩ | hheld)
    · rw [hget] at hretained
      split at hretained
      · cases hretained
      · rename_i hk
        exact .inl ⟨k', s', hk, hretained, hid⟩
    · exact .inr hheld
  · rintro (⟨k', s', hk, hretained, hid⟩ | hheld)
    · exact .inl ⟨k', s', (hget k').trans ((if_neg hk).trans hretained), hid⟩
    · exact .inr hheld

/-! ## How much is retained -/

/-- The keys in order are the retained ones, and there are no more than the capacity. -/
structure Sound (h : SoftHeap K V) : Prop where
  order : h.order.Sound
  listed : ∀ k, k ∈ h.order.keys ↔ h.retained.contains k = true
  fits : h.size ≤ h.capacity

theorem Sound.size_retained {h : SoftHeap K V} (hsound : h.Sound) : h.retained.size = h.size := by
  have hperm : h.retained.keys.Perm h.order.keys :=
    Table.keys_perm hsound.order.nodup_keys fun k => (hsound.listed k).symm
  rw [← Table.length_keys, hperm.length_eq, Recency.length_keys]
  rfl

theorem sound_ofCapacity (capacity : Nat) : (ofCapacity capacity : SoftHeap K V).Sound where
  order := Recency.sound_empty
  listed k := by simp [ofCapacity]
  fits := Nat.zero_le capacity

theorem Sound.without {h : SoftHeap K V} (hsound : h.Sound) (k : K) (queue : List K) :
    Sound { h with order := h.order.remove k, retained := h.retained.erase k, queue := queue } where
  order := hsound.order.remove k
  listed k' := by
    dsimp only
    rw [Recency.mem_keys_remove, Table.contains_erase, hsound.listed]
    simp
  fits := Nat.le_trans (Recency.size_remove_le h.order k) hsound.fits

theorem Sound.dropOldest {h rest : SoftHeap K V} {n : Nat} (hsound : h.Sound)
    (hdrop : h.dropOldest = some (n, rest)) : rest.Sound ∧ rest.capacity = h.capacity := by
  obtain ⟨⟨⟨k, w⟩, order⟩, hpop, hrest⟩ := Option.map_eq_some_iff.1 hdrop
  obtain ⟨rfl, -, -⟩ := hsound.order.popBack_eq hpop
  obtain ⟨-, rfl⟩ := Prod.mk.inj hrest
  exact ⟨hsound.without k _, rfl⟩

theorem Sound.reclaimFrom {h : SoftHeap K V} (hsound : h.Sound) (fuel count : Nat) :
    (reclaimFrom fuel count h).2.Sound ∧ (reclaimFrom fuel count h).2.capacity = h.capacity := by
  induction fuel generalizing count h with
  | zero => exact ⟨hsound, rfl⟩
  | succ fuel ih =>
    rw [SoftHeap.reclaimFrom]
    split
    · exact ⟨hsound, rfl⟩
    · split
      · exact ⟨hsound, rfl⟩
      · rename_i dropped rest hdrop
        obtain ⟨hrest, hcapacity⟩ := hsound.dropOldest hdrop
        obtain ⟨hlast, hcapacity'⟩ := ih hrest (count - dropped)
        exact ⟨hlast, hcapacity'.trans hcapacity⟩

theorem Sound.touch {h : SoftHeap K V} (hsound : h.Sound) (k : K) : (h.touch k).Sound where
  order := hsound.order.moveToFront k
  listed k' := (h.order.mem_keys_moveToFront k k').trans (hsound.listed k')
  fits := by
    show (h.order.moveToFront k).size ≤ h.capacity
    rw [Recency.size_moveToFront hsound.order]
    exact hsound.fits

theorem Sound.drain {h : SoftHeap K V} (hsound : h.Sound) : h.drain.2.Sound :=
  ⟨hsound.order, hsound.listed, hsound.fits⟩

theorem Sound.apply {h : SoftHeap K V} (hsound : h.Sound) (op : Op K) :
    (h.apply op).Sound ∧ (h.apply op).capacity = h.capacity := by
  cases op with
  | touch k => exact ⟨hsound.touch k, rfl⟩
  | release k => exact ⟨hsound.without k h.queue, rfl⟩
  | reclaim count => exact hsound.reclaimFrom _ count
  | reclaimAll => exact hsound.reclaimFrom _ maxCount
  | drain => exact ⟨hsound.drain, rfl⟩
  | clear => exact ⟨sound_ofCapacity h.capacity, rfl⟩

theorem Sound.retain {h : SoftHeap K V} (hsound : h.Sound) (k : K) (s : Shared V) :
    (h.retain k s).Sound ∧ (h.retain k s).capacity = h.capacity := by
  obtain ⟨hkeys, horder, hcapacity, hretained⟩ := retain_spec hsound.order k s
  refine ⟨⟨horder, fun k' => ?_, ?_⟩, hcapacity⟩
  · have hpushed := hsound.order.pushFront k 1
    have hnodup := hpushed.nodup_keys
    have hmem := Recency.mem_keys_pushFront h.order k k' 1
    rw [Recency.keys_pushFront] at hnodup hmem
    rw [hkeys, Table.contains, hretained]
    generalize k :: h.order.keys.filter (fun k' => decide (k' ≠ k)) = keys at hnodup hmem ⊢
    -- A listed key is kept or given up, and not both.
    rw [← List.take_append_drop h.capacity keys] at hnodup hmem
    have hapart := (List.nodup_append'.1 hnodup).2.2
    rw [List.mem_append] at hmem
    split
    · rename_i hdropped
      simp [show k' ∉ keys.take h.capacity from fun hkept => hapart hkept hdropped]
    · rename_i hkept
      rw [or_iff_left hkept] at hmem
      rw [hmem, hsound.listed, Table.contains]
      split
      · rename_i hk
        simp [hk]
      · rename_i hk
        simp [hk]
  · rw [size, ← Recency.length_keys, hkeys, List.length_take, hcapacity]
    omega

end CacheLayer.SoftHeap
