import CacheLayer.Proofs.Recency.Linked

/-!
# A linked list is one recency list

Whatever is called on a linked list, it answers as the recency list that is nothing but the pairs in
their order. No place that it looks up is without a link, and the total never falls below zero nor
leaves the counts, as long as the weights can be counted.

The places come from outside: a new link gets the one that the pool offers, and all that is asked of the
pool is that nothing is there. A pool that counts up offers such places.

* `RecencyCall` : what is called; `Recency.serve`, `Linked.serve`, `Linked.serve?` : what it comes to.
* `Recency.Countable`, `Linked.Offered` : what is asked of the weights and of the pool.
* `Represents.serve`, `Represents.run` : one call and any calls, side by side.
* `Shows` : what the links show of the list.
* `one_recency_list` : what is checked, answered and shown after any calls.
* `offered_counting` : counting up offers free places.
-/

namespace CacheLayer

open Spot

/-- What is called on a recency list. -/
inductive RecencyCall (K : Type u) where
  /-- Puts `k` at the front; if it is new there, the pool offers `place` for its link. -/
  | pushFront (k : K) (weight place : Nat)
  | moveToFront (k : K)
  | remove (k : K)
  | popBack
  | clear

def RecencyCall.place? {K : Type u} : RecencyCall K → Option Nat
  | .pushFront _ _ place => some place
  | _ => none

variable {K : Type u} [DecidableEq K]

namespace Recency

def serve (r : Recency K) : RecencyCall K → Option (K × Nat) × Recency K
  | .pushFront k w _ => (none, r.pushFront k w)
  | .moveToFront k => (none, r.moveToFront k)
  | .remove k => ((r.weight? k).map fun w => (k, w), r.remove k)
  | .popBack =>
    match r.popBack with
    | some (e, rest) => (some e, rest)
    | none => (none, r)
  | .clear => (none, .empty)

def run (r : Recency K) : List (RecencyCall K) → List (Option (K × Nat)) × Recency K
  | [] => ([], r)
  | call :: calls =>
    let first := r.serve call
    let rest := first.2.run calls
    (first.1 :: rest.1, rest.2)

/-- The listed weights can be counted throughout the calls. -/
def Countable (r : Recency K) : List (RecencyCall K) → Prop
  | [] => True
  | call :: calls =>
    ((r.serve call).2.items.map Prod.snd).sum ≤ maxCount ∧ (r.serve call).2.Countable calls

instance decidableCountable (r : Recency K) :
    (calls : List (RecencyCall K)) → Decidable (r.Countable calls)
  | [] => .isTrue trivial
  | call :: calls =>
    haveI := (r.serve call).2.decidableCountable calls
    inferInstanceAs (Decidable (_ ∧ _))

end Recency

namespace Linked

/-- What a call takes off the list, and the list after it. -/
def serve (l : Linked K) : RecencyCall K → Option (K × Nat) × Linked K
  | .pushFront k w place => (none, { l with nextPlace := place }.pushFront k w)
  | .moveToFront k => (none, l.moveToFront k)
  | .remove k => ((l.remove k).1.map fun w => (k, w), (l.remove k).2)
  | .popBack => l.popBack
  | .clear => (none, l.clear)

/-- The same, with nothing taken on trust. -/
def serve? (l : Linked K) : RecencyCall K → Option (Option (K × Nat) × Linked K)
  | .pushFront k w place => (pushFront? { l with nextPlace := place } k w).map fun l => (none, l)
  | .moveToFront k => (l.moveToFront? k).map fun l => (none, l)
  | .remove k => (l.remove? k).map fun out => (out.1.map fun w => (k, w), out.2)
  | .popBack => l.popBack?
  | .clear => some (none, l.clear)

def run (l : Linked K) : List (RecencyCall K) → List (Option (K × Nat)) × Linked K
  | [] => ([], l)
  | call :: calls =>
    let first := l.serve call
    let rest := first.2.run calls
    (first.1 :: rest.1, rest.2)

/-- The same, with nothing taken on trust. -/
def run? (l : Linked K) : List (RecencyCall K) → Option (List (Option (K × Nat)) × Linked K)
  | [] => some ([], l)
  | call :: calls => do
    let first ← l.serve? call
    let rest ← first.2.run? calls
    some (first.1 :: rest.1, rest.2)

/-- The place that a call takes for a new link. -/
def taken? (l : Linked K) : RecencyCall K → Option Nat
  | .pushFront k _ place => if l.index.contains k then none else some place
  | _ => none

/-- Nothing is at the places that the pool offers for new links throughout the calls. -/
def Offered (l : Linked K) : List (RecencyCall K) → Prop
  | [] => True
  | call :: calls =>
    (∀ place ∈ l.taken? call, l.links.contains place = false) ∧ (l.serve call).2.Offered calls

instance decidableOffered (l : Linked K) :
    (calls : List (RecencyCall K)) → Decidable (l.Offered calls)
  | [] => .isTrue trivial
  | call :: calls =>
    haveI := (l.serve call).2.decidableOffered calls
    inferInstanceAs (Decidable (_ ∧ _))

/-! ## Side by side -/

/-- The spots of `l` list what `r` lists. -/
def Represents (l : Linked K) (r : Recency K) : Prop := ∃ spots, l.Threaded spots ∧ listing spots = r

variable {l : Linked K} {r : Recency K}

theorem represents_empty : Represents (empty : Linked K) .empty := ⟨[], threaded_empty, rfl⟩

theorem Threaded.offering {spots : List (Spot K)} (h : l.Threaded spots) (place : Nat) :
    Threaded { l with nextPlace := place } spots :=
  ⟨h.chained.congr rfl rfl fun _ _ => rfl, h.filed.congr rfl (fun _ => rfl) rfl⟩

omit [DecidableEq K] in
theorem sum_listing (spots : List (Spot K)) :
    ((listing spots).items.map Prod.snd).sum = (spots.map weight).sum := by
  unfold listing
  rw [List.map_map]
  rfl

/-- A linked list serves a call as the recency list does, and its checks pass. -/
structure ServesAs (l : Linked K) (r : Recency K) (call : RecencyCall K) : Prop where
  after : Represents (l.serve call).2 (r.serve call).2
  answer : (l.serve call).1 = (r.serve call).1
  checked : l.serve? call = some (l.serve call)

namespace Represents

theorem pushFront (h : l.Represents r) (k : K) (w place : Nat)
    (hoffered : ∀ p ∈ l.taken? (.pushFront k w place), l.links.contains p = false)
    (hfits : ((r.pushFront k w).items.map Prod.snd).sum ≤ maxCount) :
    l.ServesAs r (.pushFront k w place) := by
  obtain ⟨spots, hthreaded, rfl⟩ := h
  have hpool := hthreaded.offering place
  -- The spots after the push, whether the key was listed or is new.
  obtain ⟨spots', hlisting, hafter, hchecked⟩ : ∃ spots',
      listing spots' = (listing spots).pushFront k w ∧
      (Linked.pushFront { l with nextPlace := place } k w).Threaded spots' ∧
      ((Linked.pushFront { l with nextPlace := place } k w).total ≤ maxCount →
        pushFront? { l with nextPlace := place } k w =
          some (Linked.pushFront { l with nextPlace := place } k w)) := by
    cases hk : l.index.get? k with
    | none =>
      have hfree : l.links.contains place = false := by
        apply hoffered
        rw [taken?, Table.contains_eq, hk]
        rfl
      have hnew := listing_pushFront_new (s := ⟨place, k, w⟩) (hthreaded.filed.not_mem_keys hk)
      exact ⟨_, hnew.symm, hpool.pushFront_new hk hfree w⟩
    | some p =>
      obtain ⟨newer, s, older, rfl, rfl, -⟩ := hpool.split hk
      exact ⟨_, (listing_pushFront hthreaded.filed.keys w).symm, hpool.pushFront_listed w⟩
  have htotal : (Linked.pushFront { l with nextPlace := place } k w).total ≤ maxCount := by
    rw [hafter.filed.total, ← sum_listing, hlisting]
    exact hfits
  exact ⟨⟨spots', hafter, hlisting⟩, rfl, congrArg (Option.map _) (hchecked htotal)⟩

theorem moveToFront (h : l.Represents r) (k : K) : l.ServesAs r (.moveToFront k) := by
  obtain ⟨spots, hthreaded, rfl⟩ := h
  obtain ⟨spots', hlisting, hafter, hchecked⟩ : ∃ spots',
      listing spots' = (listing spots).moveToFront k ∧
      (l.moveToFront k).Threaded spots' ∧ l.moveToFront? k = some (l.moveToFront k) := by
    cases hk : l.index.get? k with
    | none =>
      have hunlisted := weight?_listing_eq_none (hthreaded.filed.not_mem_keys hk)
      obtain ⟨hmove, hchecked⟩ := moveToFront_unlisted hk
      refine ⟨spots, ?_, ?_, hchecked⟩
      · rw [Recency.moveToFront, hunlisted]
      · rwa [hmove]
    | some p =>
      obtain ⟨newer, s, older, rfl, rfl, -⟩ := hthreaded.split hk
      exact ⟨_, (listing_moveToFront hthreaded.filed.keys).symm, hthreaded.moveToFront_listed⟩
  exact ⟨⟨spots', hafter, hlisting⟩, rfl, congrArg (Option.map _) hchecked⟩

theorem remove (h : l.Represents r) (k : K) : l.ServesAs r (.remove k) := by
  obtain ⟨spots, hthreaded, rfl⟩ := h
  obtain ⟨spots', hlisting, hafter, hweight, hchecked⟩ : ∃ spots',
      listing spots' = (listing spots).remove k ∧ (l.remove k).2.Threaded spots' ∧
      (l.remove k).1 = (listing spots).weight? k ∧ l.remove? k = some (l.remove k) := by
    cases hk : l.index.get? k with
    | none =>
      have hunlisted := weight?_listing_eq_none (hthreaded.filed.not_mem_keys hk)
      obtain ⟨hremove, hchecked⟩ := remove_unlisted hk
      refine ⟨spots, ?_, ?_, ?_, hchecked⟩
      · rw [Recency.remove, hunlisted]
      · rwa [hremove]
      · rw [hremove, hunlisted]
    | some p =>
      obtain ⟨newer, s, older, rfl, rfl, -⟩ := hthreaded.split hk
      obtain ⟨hremove, hchecked⟩ := hthreaded.remove_listed
      refine ⟨_, (listing_remove hthreaded.filed.keys).symm, ?_, ?_, hchecked⟩
      · rw [hremove]
        exact hthreaded.without
      · rw [hremove, weight?_listing hthreaded.filed.keys (by simp)]
  refine ⟨⟨spots', hafter, hlisting⟩, ?_, congrArg (Option.map _) hchecked⟩
  exact congrArg (Option.map _) hweight

theorem popBack (h : l.Represents r) : l.ServesAs r .popBack := by
  obtain ⟨spots, hthreaded, rfl⟩ := h
  rcases List.eq_nil_or_concat' spots with rfl | ⟨newer, s, rfl⟩
  · obtain ⟨hpop, hchecked⟩ := hthreaded.popBack_nil
    refine ⟨?_, congrArg Prod.fst hpop, hchecked⟩
    show Represents l.popBack.2 (listing [])
    rw [hpop]
    exact ⟨[], hthreaded, rfl⟩
  · obtain ⟨hpop, hchecked⟩ := hthreaded.popBack_last
    have hserve : (listing (newer ++ [s])).serve .popBack = (some s.pair, listing newer) := by
      rw [Recency.serve, listing_popBack]
    refine ⟨?_, ?_, hchecked⟩
    · show Represents l.popBack.2 _
      rw [hpop, hserve]
      exact ⟨newer, by simpa using hthreaded.without, rfl⟩
    · show l.popBack.1 = _
      rw [hpop, hserve]

theorem clear (l : Linked K) (r : Recency K) : l.ServesAs r .clear :=
  ⟨⟨[], threaded_empty.offering l.nextPlace, rfl⟩, rfl, rfl⟩

theorem serve (h : l.Represents r) (call : RecencyCall K)
    (hoffered : ∀ p ∈ l.taken? call, l.links.contains p = false)
    (hfits : ((r.serve call).2.items.map Prod.snd).sum ≤ maxCount) : l.ServesAs r call := by
  cases call with
  | pushFront k w place => exact h.pushFront k w place hoffered hfits
  | moveToFront k => exact h.moveToFront k
  | remove k => exact h.remove k
  | popBack => exact h.popBack
  | clear => exact clear l r

theorem run (h : l.Represents r) (calls : List (RecencyCall K)) (hoffered : l.Offered calls)
    (hfits : r.Countable calls) :
    l.run? calls = some (l.run calls) ∧ (l.run calls).1 = (r.run calls).1 ∧
      Represents (l.run calls).2 (r.run calls).2 := by
  induction calls generalizing l r with
  | nil => exact ⟨rfl, rfl, h⟩
  | cons call calls ih =>
    obtain ⟨hplace, hoffered⟩ := hoffered
    obtain ⟨hfit, hfits⟩ := hfits
    have hserve := h.serve call hplace hfit
    obtain ⟨hchecked, hanswers, hafter⟩ := ih hserve.after hoffered hfits
    refine ⟨?_, congrArg₂ List.cons hserve.answer hanswers, hafter⟩
    unfold run?
    rw [hserve.checked]
    simp only [Option.bind_eq_bind, Option.bind_some, hchecked]
    rfl

end Represents

/-! ## What the links show -/

def link? (l : Linked K) (k : K) : Option (Link K) := (l.index.get? k).bind l.links.get?

/-- The links, the index and the pool of `l` show the list `r`, and nothing else. -/
structure Shows (l : Linked K) (r : Recency K) : Prop where
  /-- No key is listed twice, and the total of `r` is the sum of its weights. -/
  sound : r.Sound
  reorders : ∀ k, (r.moveToFront k).items.Perm r.items
  size : l.size = r.size
  total : l.total = (r.items.map Prod.snd).sum
  /-- What is read from the front is the list. -/
  reads : l.toRecency = r
  /-- The index has the listed keys. -/
  keys : l.index.keys.Perm r.keys
  /-- The pool has no link that the index does not find. -/
  pool : ∀ p link, l.links.get? p = some link → l.index.get? link.key = some p
  /-- However far one goes along `older` from the front, one meets the link of each key once and in
  the order of the list. -/
  forth : ∀ fuel, l.size ≤ fuel → (l.walk Link.older fuel l.front).map some = r.keys.map l.link?
  /-- Along `newer` from the back one meets the same links in the opposite order. -/
  back : ∀ fuel, l.size ≤ fuel →
    l.walk Link.newer fuel l.back = (l.walk Link.older fuel l.front).reverse

theorem Filed.keys_perm {spots : List (Spot K)} (h : l.Filed spots) :
    l.index.keys.Perm (spots.map key) := by
  refine Table.keys_perm h.keys fun k => ?_
  rw [Table.contains_eq, Option.isSome_iff_exists]
  simp only [h.index, List.mem_map]
  constructor
  · rintro ⟨p, s, hs, hkey, -⟩
    exact ⟨s, hs, hkey⟩
  · rintro ⟨s, hs, hkey⟩
    exact ⟨s.place, s, hs, hkey, rfl⟩

theorem Filed.size_eq {spots : List (Spot K)} (h : l.Filed spots) : l.size = spots.length := by
  rw [size, ← Table.length_keys, h.keys_perm.length_eq, List.length_map]

theorem Threaded.forth {spots : List (Spot K)} (h : l.Threaded spots) {fuel : Nat}
    (hfuel : l.size ≤ fuel) :
    (l.walk Link.older fuel l.front).map some = spots.map fun s => l.links.get? s.place := by
  rw [h.filed.size_eq] at hfuel
  rw [h.chained.forth (by rwa [List.length_map]), List.map_map]
  rfl

theorem Threaded.toRecency_eq {spots : List (Spot K)} (h : l.Threaded spots) :
    l.toRecency = listing spots := by
  refine congrArg₂ Recency.mk (List.map_injective_iff.2 (Option.some_injective (K × Nat)) ?_)
    h.filed.total
  calc ((l.walk Link.older l.size l.front).map fun link => (link.key, link.weight)).map some
      = ((l.walk Link.older l.size l.front).map some).map
          (Option.map fun link => (link.key, link.weight)) := by
        rw [List.map_map, List.map_map]
        rfl
    _ = spots.map fun s => l.label? s.place := by
        rw [h.forth (Nat.le_refl _), List.map_map]
        rfl
    _ = spots.map fun s => some s.pair := List.map_congr_left fun s hs => h.filed.label_eq hs
    _ = (spots.map pair).map some := by
        rw [List.map_map]
        rfl

theorem Represents.shows (h : l.Represents r) : l.Shows r := by
  obtain ⟨spots, hthreaded, rfl⟩ := h
  have hfiled := hthreaded.filed
  have hsound := sound_listing hfiled.keys
  refine ⟨hsound, hsound.moveToFront_perm, ?_, ?_, hthreaded.toRecency_eq, ?_, ?_, ?_, ?_⟩
  · rw [hfiled.size_eq]
    exact (List.length_map pair).symm
  · rw [hfiled.total, sum_listing]
  · rw [keys_listing]
    exact hfiled.keys_perm
  · intro p link hlink
    have hlabel : l.label? p = some (link.key, link.weight) := by
      rw [label?, hlink, Option.map_some]
    obtain ⟨s, hs, hplace, hpair⟩ := (hfiled.labels p _).1 hlabel
    obtain ⟨hkey, -⟩ := Prod.mk.inj hpair
    rw [← hkey, ← hplace]
    exact hfiled.place_eq hs
  · intro fuel hfuel
    rw [hthreaded.forth hfuel, keys_listing, List.map_map]
    refine List.map_congr_left fun s hs => ?_
    show l.links.get? s.place = (l.index.get? s.key).bind l.links.get?
    rw [hfiled.place_eq hs, Option.bind_some]
  · intro fuel hfuel
    rw [hfiled.size_eq] at hfuel
    exact hthreaded.chained.back_again (by rwa [List.length_map])

theorem Shows.backwards_eq (h : l.Shows r) : l.backwards = r.keys.reverse := by
  unfold backwards
  rw [h.back l.size (Nat.le_refl _), List.map_reverse, ← h.reads]
  unfold toRecency Recency.keys
  rw [List.map_map]
  rfl

/-- **A linked list is one recency list.** Whatever is called on an empty one, if nothing is at the
places that the pool offers and the listed weights can be counted, then every link that is looked up
is there and the total neither falls below zero nor overflows; each call answers as the recency list
does; and what the links show in the end is the recency list, forth and back. -/
theorem one_recency_list (calls : List (RecencyCall K)) (hoffered : empty.Offered calls)
    (hfits : Recency.empty.Countable calls) :
    empty.run? calls = some (empty.run calls) ∧
      (empty.run calls).1 = (Recency.empty.run calls).1 ∧
      Shows (empty.run calls).2 (Recency.empty.run calls).2 := by
  obtain ⟨hchecked, hanswers, hafter⟩ := represents_empty.run calls hoffered hfits
  exact ⟨hchecked, hanswers, hafter.shows⟩

/-- Three keys are pushed, the first of them twice; the third is removed from the middle, the second
moves to the front, a fourth gets the place where the third was, and the last is popped. -/
def reusedPlace : List (RecencyCall Nat) :=
  [.pushFront 1 10 4, .pushFront 2 20 2, .pushFront 3 1 7, .pushFront 1 5 9, .remove 3, .moveToFront 2,
    .pushFront 4 3 7, .popBack]

/-- The removed key and the popped one are told with their weights, and the fourth and the second are
left. -/
theorem one_recency_list_reused_place :
    (empty : Linked Nat).Offered reusedPlace ∧ (Recency.empty : Recency Nat).Countable reusedPlace ∧
      (empty.run? reusedPlace = some (empty.run reusedPlace) ∧
        (empty.run reusedPlace).1 = (Recency.empty.run reusedPlace).1 ∧
        Shows (empty.run reusedPlace).2 (Recency.empty.run reusedPlace).2) ∧
      Recency.empty.run reusedPlace =
        ([none, none, none, none, some (3, 1), none, none, some (1, 5)], ⟨[(4, 3), (2, 20)], 23⟩) :=
  ⟨by decide, by decide, one_recency_list reusedPlace (by decide) (by decide), by decide⟩

/-! ## A pool that counts up -/

theorem place?_of_taken? {call : RecencyCall K} {place : Nat} (h : l.taken? call = some place) :
    call.place? = some place := by
  cases call with
  | pushFront k w offered =>
    unfold taken? at h
    dsimp only at h
    split at h
    · cases h
    · exact h
  | moveToFront k => cases h
  | remove k => cases h
  | popBack => cases h
  | clear => cases h

/-- Every place with a link was given out before. -/
def Counts (l : Linked K) : Prop := ∀ p, l.links.contains p = true → p < l.nextPlace

/-- The pool offers the places one after the other. -/
def CountsUp (l : Linked K) : List (RecencyCall K) → Prop
  | [] => True
  | call :: calls =>
    (∀ place ∈ call.place?, place = l.nextPlace) ∧ (l.serve call).2.CountsUp calls

namespace Counts

omit [DecidableEq K] in
theorem mono {l' : Linked K} (h : l.Counts) (hnext : l'.nextPlace = l.nextPlace)
    (hlinks : ∀ p, l'.links.contains p = true → l.links.contains p = true) : l'.Counts := by
  intro p hp
  rw [hnext]
  exact h p (hlinks p hp)

omit [DecidableEq K] in
theorem detach (h : l.Counts) (place : Nat) : (l.detach place).Counts := by
  apply h.mono (nextPlace_detach l place)
  intro p hp
  rwa [← isSome_label?, label?_detach, isSome_label?] at hp

omit [DecidableEq K] in
theorem attachFront (h : l.Counts) (place : Nat) : (l.attachFront place).Counts := by
  apply h.mono (nextPlace_attachFront l place)
  intro p hp
  rwa [← isSome_label?, label?_attachFront, isSome_label?] at hp

theorem pushFront (h : l.Counts) (k : K) (w : Nat) : (l.pushFront k w).Counts := by
  unfold Linked.pushFront
  split
  · apply attachFront
    apply detach
    refine h.mono ?_ fun p hp => ?_
    · rfl
    · rwa [contains_modify] at hp
  · apply attachFront
    intro p hp
    show p < l.nextPlace + 1
    rw [Table.contains_insert, Bool.or_eq_true, decide_eq_true_iff] at hp
    rcases hp with rfl | hold
    · exact Nat.lt_succ_self _
    · exact Nat.lt_succ_of_lt (h p hold)

theorem moveToFront (h : l.Counts) (k : K) : (l.moveToFront k).Counts := by
  unfold Linked.moveToFront
  split
  · rename_i place _
    split
    · exact h
    · exact (h.detach place).attachFront place
  · exact h

theorem remove (h : l.Counts) (k : K) : (l.remove k).2.Counts := by
  unfold Linked.remove
  split
  · exact h
  · rename_i place _
    have hdetached : Counts (Linked.detach { l with index := l.index.erase k } place) := by
      apply detach
      exact h
    dsimp only
    split
    · exact hdetached
    · refine hdetached.mono ?_ fun p hp => ?_
      · rfl
      · rw [Table.contains_erase, Bool.and_eq_true] at hp
        exact hp.2

theorem popBack (h : l.Counts) : l.popBack.2.Counts := by
  unfold Linked.popBack
  split
  · exact h
  · exact h.remove _

theorem serve (h : l.Counts) {call : RecencyCall K}
    (hplace : ∀ place ∈ call.place?, place = l.nextPlace) : (l.serve call).2.Counts := by
  cases call with
  | pushFront k w place =>
    obtain rfl : place = l.nextPlace := hplace place rfl
    exact h.pushFront k w
  | moveToFront k => exact h.moveToFront k
  | remove k => exact h.remove k
  | popBack => exact h.popBack
  | clear =>
    intro p hp
    cases hp

theorem offered (h : l.Counts) (calls : List (RecencyCall K)) (hcounts : l.CountsUp calls) :
    l.Offered calls := by
  induction calls generalizing l with
  | nil => trivial
  | cons call calls ih =>
    obtain ⟨hplace, hcounts⟩ := hcounts
    refine ⟨fun place htaken => ?_, ih (h.serve hplace) hcounts⟩
    have hnext := hplace place (place?_of_taken? htaken)
    rw [← Bool.not_eq_true]
    intro hlive
    have := h place hlive
    omega

end Counts

/-- The places that an empty list counts up are free, whatever is called on it. -/
theorem offered_counting (calls : List (RecencyCall K)) (hcounts : empty.CountsUp calls) :
    empty.Offered calls :=
  Counts.offered (fun p hp => by cases hp) calls hcounts

end Linked

end CacheLayer
