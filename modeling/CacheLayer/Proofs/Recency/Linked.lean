import CacheLayer.Proofs.Recency
import CacheLayer.Proofs.Recency.Chain

/-!
# Linked lists are recency lists

A linked list holds its keys in the order of its chain. What an operation does to the order is a
matter of the chain alone; what it does to the keys, their places and their weights does not depend on
the order.

* `Spot` : a listed key with its weight and the place of its link; `Spot.listing` : the recency list of
  some spots.
* `Filed` : the index and the pool hold these spots, in whatever order.
* `Threaded` : the spots in their order; `Threaded.relink` : one of them at the front.
* `Threaded.pushFront_listed`, `Threaded.pushFront_new`, `Threaded.moveToFront_listed`,
  `Threaded.remove_listed`, `Threaded.popBack_last` : what each operation does to the spots, and that
  its checks pass; `moveToFront_unlisted`, `remove_unlisted`, `Threaded.popBack_nil` : where it does
  nothing.
-/

namespace CacheLayer

/-- A listed key with its weight and the place of its link. -/
structure Spot (K : Type u) where
  place : Nat
  key : K
  weight : Nat

namespace Spot

variable {K : Type u}

def pair (s : Spot K) : K × Nat := (s.key, s.weight)

def listing (spots : List (Spot K)) : Recency K :=
  ⟨spots.map pair, (spots.map weight).sum⟩

theorem keys_listing (spots : List (Spot K)) : (listing spots).keys = spots.map key := by
  unfold Recency.keys listing
  rw [List.map_map]
  rfl

theorem sound_listing {spots : List (Spot K)} (h : (spots.map key).Nodup) :
    (listing spots).Sound := by
  have hkeys : (listing spots).keys.Nodup := by rwa [keys_listing]
  refine ⟨hkeys, ?_⟩
  show (spots.map weight).sum = (spots.map pair).foldr (fun e n => e.2 + n) 0
  rw [List.foldr_map, List.sum, List.foldr_map]
  rfl

variable [DecidableEq K] {newer older spots : List (Spot K)} {s : Spot K}

theorem weight?_listing (h : (spots.map key).Nodup) (hs : s ∈ spots) :
    (listing spots).weight? s.key = some s.weight :=
  (sound_listing h).weight?_of_mem_items (List.mem_map.2 ⟨s, hs, rfl⟩)

theorem weight?_listing_eq_none {k : K} (h : k ∉ spots.map key) :
    (listing spots).weight? k = none := by
  rw [Recency.weight?_eq_none_iff, keys_listing]
  exact h

theorem listing_remove (h : ((newer ++ s :: older).map key).Nodup) :
    (listing (newer ++ s :: older)).remove s.key = listing (newer ++ older) := by
  have hother : ∀ t ∈ newer ++ older, t.key ≠ s.key := by
    intro t ht heq
    have hperm : ((newer ++ s :: older).map key).Perm (s.key :: (newer ++ older).map key) :=
      List.perm_middle.map key
    exact (List.nodup_cons.1 (hperm.nodup_iff.1 h)).1 (heq ▸ List.mem_map_of_mem ht)
  have hkept : ∀ kept : List (Spot K), (∀ t ∈ kept, t ∈ newer ++ older) →
      (kept.map pair).filter (fun e => decide (e.1 ≠ s.key)) = kept.map pair := by
    intro kept hsub
    refine List.filter_eq_self.2 fun e he => ?_
    obtain ⟨t, ht, rfl⟩ := List.mem_map.1 he
    exact decide_eq_true (hother t (hsub t ht))
  have hitems : ((newer ++ s :: older).map pair).filter (fun e => decide (e.1 ≠ s.key)) =
      (newer ++ older).map pair := by
    rw [List.map_append, List.map_cons, List.filter_append,
      List.filter_cons_of_neg (by simp [pair]), hkept newer fun t ht => List.mem_append_left _ ht,
      hkept older fun t ht => List.mem_append_right _ ht, List.map_append]
  have htotal : ((newer ++ s :: older).map weight).sum - s.weight =
      ((newer ++ older).map weight).sum := by
    simp only [List.map_append, List.map_cons, List.sum_append, List.sum_cons]
    omega
  rw [Recency.remove, weight?_listing h (by simp)]
  exact congrArg₂ Recency.mk hitems htotal

theorem listing_pushFront (h : ((newer ++ s :: older).map key).Nodup) (w : Nat) :
    (listing (newer ++ s :: older)).pushFront s.key w =
      listing ({ s with weight := w } :: (newer ++ older)) := by
  rw [Recency.pushFront, listing_remove h]
  show (⟨_, _ + w⟩ : Recency K) = ⟨_, _⟩
  rw [Nat.add_comm]
  rfl

theorem listing_moveToFront (h : ((newer ++ s :: older).map key).Nodup) :
    (listing (newer ++ s :: older)).moveToFront s.key = listing (s :: (newer ++ older)) := by
  rw [Recency.moveToFront_eq (weight?_listing h (by simp)), listing_pushFront h]

theorem listing_pushFront_new (h : s.key ∉ spots.map key) :
    (listing spots).pushFront s.key s.weight = listing (s :: spots) := by
  rw [Recency.pushFront, Recency.remove, weight?_listing_eq_none h]
  show (⟨_, _ + s.weight⟩ : Recency K) = ⟨_, _⟩
  rw [Nat.add_comm]
  rfl

omit [DecidableEq K] in
theorem listing_popBack (newer : List (Spot K)) (s : Spot K) :
    (listing (newer ++ [s])).popBack = some (s.pair, listing newer) := by
  unfold Recency.popBack listing
  simp [pair]

end Spot

namespace Linked

open Spot

variable {K : Type u} [DecidableEq K] {l l' : Linked K} {s : Spot K}
  {newer older spots spots' : List (Spot K)}

/-! ## What does not depend on the order -/

/-- The index and the pool hold these spots and no other, and the total is the sum of the weights. -/
structure Filed (l : Linked K) (spots : List (Spot K)) : Prop where
  keys : (spots.map key).Nodup
  index : ∀ k p, l.index.get? k = some p ↔ ∃ s ∈ spots, s.key = k ∧ s.place = p
  labels : ∀ p label, l.label? p = some label ↔ ∃ s ∈ spots, s.place = p ∧ s.pair = label
  total : l.total = (spots.map weight).sum

theorem filed_empty : (empty : Linked K).Filed [] where
  keys := List.nodup_nil
  index := by simp [empty]
  labels := by simp [empty, label?]
  total := rfl

namespace Filed

theorem congr (h : l.Filed spots) (hindex : l'.index = l.index)
    (hlabels : ∀ p, l'.label? p = l.label? p) (htotal : l'.total = l.total) : l'.Filed spots where
  keys := h.keys
  index := by
    intro k p
    rw [hindex]
    exact h.index k p
  labels := by
    intro p label
    rw [hlabels]
    exact h.labels p label
  total := htotal.trans h.total

theorem perm (h : l.Filed spots) (hperm : spots.Perm spots') : l.Filed spots' where
  keys := (hperm.map key).nodup_iff.1 h.keys
  index := by
    intro k p
    simp only [h.index, hperm.mem_iff]
  labels := by
    intro p label
    simp only [h.labels, hperm.mem_iff]
  total := h.total.trans (hperm.map weight).sum_nat

theorem place_eq (h : l.Filed spots) (hs : s ∈ spots) : l.index.get? s.key = some s.place :=
  (h.index s.key s.place).2 ⟨s, hs, rfl, rfl⟩

theorem label_eq (h : l.Filed spots) (hs : s ∈ spots) : l.label? s.place = some s.pair :=
  (h.labels s.place s.pair).2 ⟨s, hs, rfl, rfl⟩

theorem exists_link (h : l.Filed spots) (hs : s ∈ spots) :
    ∃ link, l.links.get? s.place = some link ∧ link.key = s.key ∧ link.weight = s.weight := by
  obtain ⟨link, hlink, hlabel⟩ := Option.map_eq_some_iff.1 (h.label_eq hs)
  obtain ⟨hkey, hweight⟩ := Prod.mk.inj hlabel
  exact ⟨link, hlink, hkey, hweight⟩

theorem not_mem_keys (h : l.Filed spots) {k : K} (hk : l.index.get? k = none) :
    k ∉ spots.map key := by
  intro hmem
  obtain ⟨s, hs, rfl⟩ := List.mem_map.1 hmem
  rw [h.place_eq hs] at hk
  cases hk

theorem not_mem_places (h : l.Filed spots) {p : Nat} (hp : l.links.contains p = false) :
    p ∉ spots.map place := by
  intro hmem
  obtain ⟨s, hs, rfl⟩ := List.mem_map.1 hmem
  rw [← isSome_label?, h.label_eq hs] at hp
  cases hp

/-- A link with a new key at a free place. -/
theorem cons (h : l.Filed spots) (hkey : l.index.get? s.key = none)
    (hplace : l.links.contains s.place = false)
    (hindex : ∀ k, l'.index.get? k = if k = s.key then some s.place else l.index.get? k)
    (hlabels : ∀ p, l'.label? p = if p = s.place then some s.pair else l.label? p)
    (htotal : l'.total = l.total + s.weight) : l'.Filed (s :: spots) where
  keys := List.nodup_cons.2 ⟨h.not_mem_keys hkey, h.keys⟩
  index := by
    intro k p
    rw [hindex]
    have hold := h.index k p
    have hnew := h.not_mem_keys hkey
    by_cases hk : k = s.key
    · subst hk
      grind
    · grind
  labels := by
    intro p label
    rw [hlabels]
    have hold := h.labels p label
    have hnew := h.not_mem_places hplace
    by_cases hp : p = s.place
    · subst hp
      grind
    · grind
  total := by
    rw [htotal, h.total, List.map_cons, List.sum_cons, Nat.add_comm]

theorem tail (h : l.Filed (s :: spots)) (hplaces : s.place ∉ spots.map place)
    (hindex : ∀ k, l'.index.get? k = if k = s.key then none else l.index.get? k)
    (hlabels : ∀ p, l'.label? p = if p = s.place then none else l.label? p)
    (htotal : l'.total = l.total - s.weight) : l'.Filed spots where
  keys := (List.nodup_cons.1 h.keys).2
  index := by
    intro k p
    rw [hindex]
    have hold := h.index k p
    have hapart : s.key ∉ spots.map key := (List.nodup_cons.1 h.keys).1
    by_cases hk : k = s.key
    · subst hk
      grind
    · grind
  labels := by
    intro p label
    rw [hlabels]
    have hold := h.labels p label
    by_cases hp : p = s.place
    · subst hp
      grind
    · grind
  total := by
    rw [htotal, h.total, List.map_cons, List.sum_cons, Nat.add_sub_cancel_left]

theorem reweigh (h : l.Filed (s :: spots)) (hplaces : s.place ∉ spots.map place) (w : Nat)
    (hindex : l'.index = l.index)
    (hlabels : ∀ p, l'.label? p = if p = s.place then some (s.key, w) else l.label? p)
    (htotal : l'.total = l.total - s.weight + w) :
    l'.Filed ({ s with weight := w } :: spots) where
  keys := h.keys
  index := by
    intro k p
    rw [hindex, h.index]
    simp only [List.mem_cons, exists_eq_or_imp]
  labels := by
    intro p label
    rw [hlabels]
    have hold := h.labels p label
    simp only [List.mem_cons, exists_eq_or_imp] at hold ⊢
    by_cases hp : p = s.place
    · subst hp
      grind [pair]
    · grind
  total := by
    show l'.total = w + (spots.map weight).sum
    rw [htotal, h.total, List.map_cons, List.sum_cons]
    omega

end Filed

/-! ## In their order -/

/-- The spots of a list from the front to the back. -/
structure Threaded (l : Linked K) (spots : List (Spot K)) : Prop where
  chained : l.Chained (spots.map place)
  filed : l.Filed spots

theorem threaded_empty : (empty : Linked K).Threaded [] := ⟨chained_empty, filed_empty⟩

namespace Threaded

theorem split (h : l.Threaded spots) {k : K} {p : Nat} (hindex : l.index.get? k = some p) :
    ∃ newer s older, spots = newer ++ s :: older ∧ s.key = k ∧ s.place = p := by
  obtain ⟨s, hs, hkey, hplace⟩ := (h.filed.index k p).1 hindex
  obtain ⟨newer, older, hsplit⟩ := List.append_of_mem hs
  exact ⟨newer, s, older, hsplit, hkey, hplace⟩

theorem place_apart (h : l.Threaded (newer ++ s :: older)) :
    s.place ∉ (newer ++ older).map place := by
  have hperm : ((newer ++ s :: older).map place).Perm (s.place :: (newer ++ older).map place) :=
    List.perm_middle.map place
  exact (List.nodup_cons.1 (hperm.nodup_iff.1 h.chained.nodup)).1

/-- A link of the chain, detached and attached to the front, with all that is looked up there. -/
theorem relink (hchain : l.Chained ((newer ++ s :: older).map place))
    (hfiled : l.Filed (s :: (newer ++ older))) :
    ((l.detach s.place).attachFront s.place).Threaded (s :: (newer ++ older)) ∧
      (l.detach? s.place).bind (attachFront? · s.place) =
        some ((l.detach s.place).attachFront s.place) := by
  rw [List.map_append, List.map_cons] at hchain
  have hdetached := hchain.detach
  have hplace : s.place ∉ newer.map place ++ older.map place := by
    have := hchain.nodup
    grind
  have hlive : (l.detach s.place).links.contains s.place = true := by
    rw [← isSome_label?, label?_detach, hfiled.label_eq List.mem_cons_self, Option.isSome_some]
  refine ⟨⟨?_, ?_⟩, ?_⟩
  · rw [List.map_cons, List.map_append]
    exact hdetached.attachFront hplace hlive
  · exact hfiled.congr (by simp) (by simp) (by simp)
  · rw [hchain.detach?_eq, Option.bind_some]
    exact hdetached.attachFront?_eq hlive

/-! ## Operations -/

theorem weight_le (h : l.Threaded (newer ++ s :: older)) : s.weight ≤ l.total := by
  rw [h.filed.total]
  simp only [List.map_append, List.map_cons, List.sum_append, List.sum_cons]
  omega

end Threaded

/-! ### Pushing to the front -/

def weighed (l : Linked K) (s : Spot K) (w : Nat) : Linked K :=
  { l with
    links := l.links.modify s.place fun link => { link with weight := w }
    total := l.total - s.weight + w }

/-- The list with a new link that is not attached yet. -/
def withLoose (l : Linked K) (k : K) (w : Nat) : Linked K :=
  { l with
    links := l.links.insert l.nextPlace ⟨k, w, none, none⟩
    index := l.index.insert k l.nextPlace
    total := l.total + w
    nextPlace := l.nextPlace + 1 }

theorem Threaded.chained_weighed (h : l.Threaded (newer ++ s :: older)) (w : Nat) :
    (l.weighed s w).Chained ((newer ++ { s with weight := w } :: older).map place) := by
  have hplaces : (newer ++ { s with weight := w } :: older).map place =
      (newer ++ s :: older).map place := by simp
  rw [hplaces]
  refine h.chained.congr rfl rfl fun p _ => ?_
  show ((l.links.modify s.place _).get? p).map _ = (l.links.get? p).map _
  rw [Table.get?_modify]
  split
  · rename_i hp
    rw [Option.map_map, hp]
    rfl
  · rfl

theorem Threaded.filed_weighed (h : l.Threaded (newer ++ s :: older)) (w : Nat) :
    (l.weighed s w).Filed ({ s with weight := w } :: (newer ++ older)) := by
  have hs : s ∈ newer ++ s :: older := by simp
  obtain ⟨link, hlink, hkey, -⟩ := h.filed.exists_link hs
  refine (h.filed.perm List.perm_middle).reweigh h.place_apart w rfl (fun p => ?_) rfl
  show ((l.links.modify s.place _).get? p).map _ = _
  rw [Table.get?_modify, hlink, ← hkey]
  split <;> rfl

theorem Threaded.pushFront_listed (h : l.Threaded (newer ++ s :: older)) (w : Nat) :
    (l.pushFront s.key w).Threaded ({ s with weight := w } :: (newer ++ older)) ∧
      ((l.pushFront s.key w).total ≤ maxCount →
        l.pushFront? s.key w = some (l.pushFront s.key w)) := by
  have hs : s ∈ newer ++ s :: older := by simp
  obtain ⟨link, hlink, -, hweight⟩ := h.filed.exists_link hs
  have hpush : l.pushFront s.key w = ((l.weighed s w).detach s.place).attachFront s.place := by
    unfold pushFront weighed
    rw [h.filed.place_eq hs]
    dsimp only
    rw [hlink, Option.map_some, Option.getD_some, hweight]
  obtain ⟨hthreaded, hchecked⟩ := relink (h.chained_weighed w) (h.filed_weighed w)
  rw [hpush, total_attachFront, total_detach]
  refine ⟨hthreaded, fun hfits : l.total - s.weight + w ≤ maxCount => ?_⟩
  have hchange : change? { l with total := l.total - s.weight + w } s.place
      (fun link => { link with weight := w }) = some (l.weighed s w) :=
    if_pos (h.chained.contains (List.mem_map_of_mem hs))
  rw [← hchecked]
  unfold pushFront? subtract? add?
  rw [h.filed.place_eq hs]
  simp only [hlink, hweight, Option.bind_eq_bind, Option.bind_some, if_pos h.weight_le,
    if_pos hfits]
  rw [hchange]
  rfl

theorem Threaded.pushFront_new (h : l.Threaded spots) {k : K} (hk : l.index.get? k = none)
    (hoffered : l.links.contains l.nextPlace = false) (w : Nat) :
    (l.pushFront k w).Threaded (⟨l.nextPlace, k, w⟩ :: spots) ∧
      ((l.pushFront k w).total ≤ maxCount → l.pushFront? k w = some (l.pushFront k w)) := by
  have hplace := h.filed.not_mem_places hoffered
  have hlive : (l.withLoose k w).links.contains l.nextPlace = true := by
    show (l.links.insert l.nextPlace _).contains l.nextPlace = true
    simp
  have hchain : (l.withLoose k w).Chained (spots.map place) := by
    refine h.chained.congr rfl rfl fun p hp => ?_
    show ((l.links.insert l.nextPlace _).get? p).map _ = _
    rw [Table.get?_insert, if_neg fun hsame : p = l.nextPlace => hplace (hsame ▸ hp)]
    rfl
  have hfiled : (l.withLoose k w).Filed (⟨l.nextPlace, k, w⟩ :: spots) := by
    refine h.filed.cons hk hoffered (fun k' => Table.get?_insert _ _ _ _) (fun p => ?_) rfl
    show ((l.links.insert l.nextPlace _).get? p).map _ = _
    rw [Table.get?_insert]
    split <;> rfl
  have hpush : l.pushFront k w = (l.withLoose k w).attachFront l.nextPlace := by
    unfold pushFront withLoose
    rw [hk]
  rw [hpush, total_attachFront]
  refine ⟨⟨hchain.attachFront hplace hlive, hfiled.congr (by simp) (by simp) (by simp)⟩,
    fun hfits : l.total + w ≤ maxCount => ?_⟩
  unfold pushFront? add?
  rw [hk]
  simp only [Option.bind_eq_bind, if_pos hfits, Option.bind_some]
  exact hchain.attachFront?_eq hlive

theorem Threaded.moveToFront_listed (h : l.Threaded (newer ++ s :: older)) :
    (l.moveToFront s.key).Threaded (s :: (newer ++ older)) ∧
      l.moveToFront? s.key = some (l.moveToFront s.key) := by
  have hs : s ∈ newer ++ s :: older := by simp
  unfold moveToFront moveToFront?
  rw [h.filed.place_eq hs]
  dsimp only
  split
  · -- No other spot has the place of the front, so nothing is before it.
    rename_i hfront
    have hnewer : newer = [] := by
      rw [h.chained.front] at hfront
      have hapart := h.place_apart
      cases newer with
      | nil => rfl
      | cons t newer => grind
    subst hnewer
    exact ⟨h, rfl⟩
  · exact relink h.chained (h.filed.perm List.perm_middle)

theorem moveToFront_unlisted {k : K} (hk : l.index.get? k = none) :
    l.moveToFront k = l ∧ l.moveToFront? k = some (l.moveToFront k) := by
  unfold moveToFront moveToFront?
  rw [hk]
  exact ⟨rfl, rfl⟩

/-! ### Taking off -/

/-- The list with the link at a place joined over, and its key out of the index. -/
def passedOver (l : Linked K) (s : Spot K) : Linked K :=
  detach { l with index := l.index.erase s.key } s.place

def without (l : Linked K) (s : Spot K) : Linked K :=
  { l.passedOver s with
    links := (l.passedOver s).links.erase s.place
    total := (l.passedOver s).total - s.weight }

theorem Threaded.chained_unindexed (h : l.Threaded (newer ++ s :: older)) :
    Chained { l with index := l.index.erase s.key }
      (newer.map place ++ s.place :: older.map place) := by
  rw [← List.map_cons, ← List.map_append]
  exact h.chained.congr rfl rfl fun _ _ => rfl

theorem Threaded.without (h : l.Threaded (newer ++ s :: older)) :
    (l.without s).Threaded (newer ++ older) := by
  have hplaces := h.place_apart
  refine ⟨?_, (h.filed.perm List.perm_middle).tail hplaces (fun k => ?_) (fun p => ?_) ?_⟩
  · rw [List.map_append] at hplaces ⊢
    refine h.chained_unindexed.detach.congr rfl rfl fun p hp => ?_
    show (((l.passedOver s).links.erase s.place).get? p).map _ = _
    rw [Table.get?_erase, if_neg fun hsame : p = s.place => hplaces (hsame ▸ hp)]
    rfl
  · show (l.passedOver s).index.get? k = _
    rw [passedOver, index_detach, Table.get?_erase]
  · show (((l.passedOver s).links.erase s.place).get? p).map _ = _
    rw [Table.get?_erase]
    split
    · rfl
    · exact label?_detach _ _ _
  · show (l.passedOver s).total - s.weight = l.total - s.weight
    rw [passedOver, total_detach]

theorem Threaded.remove_listed (h : l.Threaded (newer ++ s :: older)) :
    l.remove s.key = (some s.weight, l.without s) ∧
      l.remove? s.key = some (l.remove s.key) := by
  have hs : s ∈ newer ++ s :: older := by simp
  have hlabel : (l.passedOver s).label? s.place = some s.pair :=
    (label?_detach _ _ _).trans (h.filed.label_eq hs)
  obtain ⟨link, hlink, hpair⟩ := Option.map_eq_some_iff.1 hlabel
  have hweight : link.weight = s.weight := (Prod.mk.inj hpair).2
  have hremove : l.remove s.key = (some s.weight, l.without s) := by
    unfold remove Linked.without
    rw [h.filed.place_eq hs, ← hweight]
    unfold passedOver at hlink ⊢
    dsimp only
    rw [hlink]
  refine ⟨hremove, ?_⟩
  have htotal : (l.passedOver s).total = l.total := total_detach _ _
  have hsubtract :
      subtract? { l.passedOver s with links := (l.passedOver s).links.erase s.place } s.weight =
        some (l.without s) := if_pos (htotal ▸ h.weight_le)
  rw [hremove]
  unfold passedOver at hlink hsubtract
  unfold remove?
  rw [h.filed.place_eq hs]
  simp only [h.chained_unindexed.detach?_eq, Option.bind_eq_bind, Option.bind_some, hlink, hweight,
    hsubtract]

theorem remove_unlisted {k : K} (hk : l.index.get? k = none) :
    l.remove k = (none, l) ∧ l.remove? k = some (l.remove k) := by
  unfold remove remove?
  rw [hk]
  exact ⟨rfl, rfl⟩

theorem Threaded.popBack_last (h : l.Threaded (newer ++ [s])) :
    l.popBack = (some s.pair, l.without s) ∧ l.popBack? = some l.popBack := by
  have hs : s ∈ newer ++ [s] := by simp
  obtain ⟨link, hlink, hkey, -⟩ := h.filed.exists_link hs
  obtain ⟨hremove, hchecked⟩ := h.remove_listed
  have hback : l.back = some s.place := by
    rw [h.chained.back]
    simp
  have hpop : l.popBack = (some s.pair, l.without s) := by
    unfold popBack
    rw [hback, Option.bind_some, hlink]
    dsimp only
    rw [hkey, hremove]
    rfl
  refine ⟨hpop, ?_⟩
  rw [hpop]
  unfold popBack?
  rw [hback]
  simp only [hlink, hkey, hchecked, hremove, Option.bind_eq_bind, Option.bind_some]
  rfl

theorem Threaded.popBack_nil (h : l.Threaded []) :
    l.popBack = (none, l) ∧ l.popBack? = some l.popBack := by
  have hback : l.back = none := h.chained.back
  unfold popBack popBack?
  rw [hback]
  exact ⟨rfl, rfl⟩

end Linked

end CacheLayer
