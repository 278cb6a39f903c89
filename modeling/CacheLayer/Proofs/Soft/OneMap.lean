import CacheLayer.Proofs.Lru
import CacheLayer.Proofs.Soft.Reclaiming

/-!
# A soft cache whose values nobody else holds is one map

When every insertion brings an object of its own and nobody outside keeps one, an object lives as
long as the heap retains it. The table and the heap then agree, and the cache replies as an `Lru` map
of the heap's capacity does.

* `Mirrors` : table and heap show what the map shows; `Mirrors.not_dead` : no dead entry is stored.
* `Mirrors.insert`, `Mirrors.get`, `Mirrors.remove`, `Mirrors.serve` : each request keeps that.
* `lru_while_unheld` : so does every sequence of requests.
-/

namespace CacheLayer

namespace Lru

variable {K : Type u} {V : Type v} [DecidableEq K]

/-- No object is stored under two keys. -/
def Apart (l : Lru K (Shared V)) : Prop :=
  ∀ k k' s s', l.find? k = some s → l.find? k' = some s' → s.id = s'.id → k = k'

theorem Apart.without {l : Lru K (Shared V)} (h : l.Apart) (k : K) : (l.without k).Apart := by
  intro k₁ k₂ s₁ s₂ h₁ h₂
  rw [find?_without] at h₁ h₂
  split at h₁
  · cases h₁
  · split at h₂
    · cases h₂
    · exact h k₁ k₂ s₁ s₂ h₁ h₂

theorem Apart.toFront {l : Lru K (Shared V)} (h : l.Apart) {k : K} {s : Shared V}
    (hfresh : ∀ k' s', l.find? k' = some s' → s'.id ≠ s.id) : (l.toFront k s).Apart := by
  intro k₁ k₂ s₁ s₂ h₁ h₂ hid
  rw [find?_toFront] at h₁ h₂
  split at h₁
  · rename_i hk₁
    cases h₁
    split at h₂
    · rename_i hk₂
      rw [hk₁, hk₂]
    · exact (hfresh k₂ s₂ h₂ hid.symm).elim
  · split at h₂
    · cases h₂
      exact (hfresh k₁ s₁ h₁ hid).elim
    · exact h k₁ k₂ s₁ s₂ h₁ h₂ hid

end Lru

namespace Soft

variable {K : Type u} {V : Type v} [DecidableEq K] {c : Soft K V} {w : World}
  {l : Lru K (Shared V)}

/-! ## Looking the same -/

/-- The table and the heap show what the map shows, in the same order, and no key waits to be looked
at again. -/
structure Mirrors (c : Soft K V) (l : Lru K (Shared V)) : Prop where
  heap : c.heap.Sound
  capacity : c.heap.capacity = l.capacity
  order : c.heap.order.keys = l.keys
  handles : ∀ k, c.handles.get? k = l.find? k
  retained : ∀ k, c.heap.retained.get? k = l.find? k
  settled : c.heap.queue = []
  apart : l.Apart

/-- The cache did what the map does: it replies the same, tells of what was pushed out as reclaimed,
and they still look the same. -/
structure Mirrored (o : Lru.Served K (Shared V))
    (out : Change K V (MapReply K (Shared V))) : Prop where
  mirrors : out.cache.Mirrors o.map
  agrees : out.answer.Agrees o.reply
  tells : out.events.filter (fun e => e.reason ≠ .removed) = reclaims (o.evicted.map Prod.fst)

theorem Mirrors.tied (h : c.Mirrors l) : c.Tied := fun k s hget => by
  rw [h.handles, ← h.retained, hget]

theorem Mirrors.nodup_keys (h : c.Mirrors l) : l.keys.Nodup := h.order ▸ h.heap.order.nodup_keys

theorem Mirrors.alive (h : c.Mirrors l) {k : K} {s : Shared V} (hfind : l.find? k = some s)
    (w : World) : c.alive w s = true :=
  SoftHeap.alive_of_retained ((h.retained k).trans hfind) w

theorem Mirrors.not_dead (h : c.Mirrors l) (w : World) (k : K) : ¬ c.Dead w k := by
  rintro ⟨s, hget, hdead⟩
  rw [h.alive ((h.handles k).symm.trans hget) w] at hdead
  cases hdead

theorem Mirrors.live? (h : c.Mirrors l) (w : World) (k : K) : c.live? w k = l.find? k := by
  unfold Soft.live?
  rw [h.handles]
  cases hfind : l.find? k with
  | none => rfl
  | some s => rw [Option.filter_some, if_pos (h.alive hfind w)]

theorem Mirrors.sweep (h : c.Mirrors l) (w : World) : c.sweep w = ⟨(), c, []⟩ := by
  obtain ⟨name, handles, ⟨capacity, order, retained, queue⟩, metrics⟩ := c
  obtain rfl : queue = [] := h.settled
  rfl

/-! ## The requests -/

theorem purgeAll_of_dead {ks : List K} (hks : ks.Nodup) (hdead : ∀ k ∈ ks, c.Dead w k) :
    c.purgeAll w ks = ⟨(), c.without ks, reclaims ks⟩ := by
  obtain ⟨gone, hnodup, hsub, hmem, hpurge⟩ := purgeAll_eq ks c w
  have hperm : gone.Perm ks := by
    rw [List.perm_ext_iff_of_nodup hnodup hks]
    exact fun k => (hmem k).trans ⟨And.left, fun hk => ⟨hk, hdead k hk⟩⟩
  rw [hpurge, hsub.eq_of_length hperm.length_eq]

theorem Mirrors.keys_insert (h : c.Mirrors l) (k : K) (s : Shared V) :
    (k :: c.heap.order.keys.filter fun k' => decide (k' ≠ k)) = (l.toFront k s).keys := by
  rw [Lru.keys_toFront, h.order]

theorem Mirrors.retained_insert (h : c.Mirrors l) (k k' : K) (s : Shared V) :
    (c.heap.retain k s).retained.get? k' =
      if k' ∈ (l.toFront k s).keys.drop l.capacity then none else (l.toFront k s).find? k' := by
  obtain ⟨-, -, -, hretained⟩ := SoftHeap.retain_spec h.heap.order k s
  rw [hretained, h.keys_insert k s, h.capacity, h.retained, Lru.find?_toFront]

/-- A key that is pushed out is dead: its object is retained under no key that is kept. -/
theorem Mirrors.dead_of_dropped (h : c.Mirrors l) {k k' : K} {s s' : Shared V}
    (hapart : (l.toFront k s).Apart) (hfind : (l.toFront k s).find? k' = some s')
    (hheld : w.holds s'.id = false) (hdropped : k' ∈ (l.toFront k s).keys.drop l.capacity) :
    (c.heap.retain k s).alive w s' = false := by
  rw [← Bool.not_eq_true, SoftHeap.alive_iff, hheld]
  rintro (⟨k'', s'', hretained, hid⟩ | hholds)
  · rw [h.retained_insert] at hretained
    split at hretained
    · cases hretained
    · rename_i hkept
      exact hkept (hapart k'' k' s'' s' hretained hfind hid ▸ hdropped)
  · cases hholds

theorem Mirrors.nodup_insert (h : c.Mirrors l) (k : K) (s : Shared V) :
    (l.toFront k s).keys.Nodup := by
  have hpushed := (h.heap.order.pushFront k 1).nodup_keys
  rwa [Recency.keys_pushFront, h.keys_insert k s] at hpushed

theorem Mirrors.handles_insert (h : c.Mirrors l) (k k' : K) (s : Shared V) :
    (c.takingIn k s).handles.get? k' = (l.toFront k s).find? k' := by
  show (c.handles.insert k s).get? k' = _
  rw [Table.get?_insert, Lru.find?_toFront, h.handles]

theorem Mirrors.queue_insert (h : c.Mirrors l) (k : K) (s : Shared V) :
    (c.heap.retain k s).queue = ((l.toFront k s).keys.drop l.capacity).reverse := by
  have hqueue := SoftHeap.queue_retain h.heap.order k s
  rwa [h.keys_insert k s, h.capacity, h.settled, List.nil_append] at hqueue

/-- An insertion drops the keys that are pushed out, and no other. -/
theorem Mirrors.insert_eq (h : c.Mirrors l) {k : K} {s : Shared V} (hapart : (l.toFront k s).Apart)
    (hheld : ∀ k' s', (l.toFront k s).find? k' = some s' → w.holds s'.id = false) :
    c.insert w k s = ⟨(), (c.takingIn k s).without (c.heap.retain k s).queue,
      reclaims (c.heap.retain k s).queue⟩ := by
  rw [insert_eq_purgeAll, h.queue_insert k s]
  refine purgeAll_of_dead ?_ fun k' hk' => ?_
  · exact List.nodup_reverse.2 ((h.nodup_insert k s).sublist (List.drop_sublist _ _))
  · rw [List.mem_reverse] at hk'
    have hmem : k' ∈ (l.toFront k s).keys := List.mem_of_mem_drop hk'
    obtain ⟨s', hs'⟩ := Option.isSome_iff_exists.1
      ((Lru.isSome_find? _ k').trans (decide_eq_true hmem))
    exact ⟨s', (h.handles_insert k k' s).trans hs',
      h.dead_of_dropped hapart hs' (hheld k' s' hs') hk'⟩

theorem Mirrors.insert (h : c.Mirrors l) {k : K} {s : Shared V}
    (hapart : (l.toFront k s).Apart)
    (hheld : ∀ k' s', (l.toFront k s).find? k' = some s' → w.holds s'.id = false) :
    Mirrored (l.serve (.insert k s)) (c.serve w (.insert k s)) := by
  obtain ⟨horder, -, hcapacity, -⟩ := SoftHeap.retain_spec h.heap.order k s
  rw [h.keys_insert k s, h.capacity] at horder
  have hsettled (k' : K) : (l.toFront k s).settle.1.find? k' =
      if k' ∈ (l.toFront k s).keys.drop l.capacity then none else (l.toFront k s).find? k' :=
    Lru.find?_settle (h.nodup_insert k s) k'
  show Mirrored _ ⟨.done, (c.insert w k s).cache, (c.insert w k s).events⟩
  rw [h.insert_eq hapart hheld]
  refine ⟨⟨(h.heap.retain k s).1.drain, hcapacity.trans h.capacity, ?_, fun k' => ?_, fun k' => ?_,
    rfl, ?_⟩, rfl, ?_⟩
  · show (c.heap.retain k s).order.keys = (l.toFront k s).settle.1.keys
    rw [horder, Lru.keys_settle]
    rfl
  · show ((c.heap.retain k s).queue.foldl Table.erase (c.takingIn k s).handles).get? k' =
      (l.toFront k s).settle.1.find? k'
    rw [Table.get?_foldl_erase, hsettled, h.queue_insert k s, h.handles_insert]
    simp only [List.mem_reverse]
  · show (c.heap.retain k s).retained.get? k' = (l.toFront k s).settle.1.find? k'
    rw [h.retained_insert, hsettled]
  · intro k₁ k₂ s₁ s₂ h₁ h₂
    exact hapart k₁ k₂ s₁ s₂ (Lru.find?_of_settle h₁) (Lru.find?_of_settle h₂)
  · show (reclaims (c.heap.retain k s).queue).filter (fun e => e.reason ≠ .removed) =
      reclaims ((l.toFront k s).settle.2.map Prod.fst)
    rw [Lru.evicted_settle, h.queue_insert k s]
    refine List.filter_eq_self.2 fun e he => ?_
    obtain ⟨k', -, rfl⟩ := List.mem_map.1 he
    rfl

theorem Mirrors.remove (h : c.Mirrors l) (w : World) (k : K) :
    Mirrored (l.serve (.remove k)) (c.serve w (.remove k)) := by
  have hheap := h.heap.apply (.release k)
  show Mirrored _ ⟨.truth (c.remove w k).answer, (c.remove w k).cache, (c.remove w k).events⟩
  have hcache := c.remove_cache w k
  refine ⟨?_, ?_, ?_⟩
  · rw [hcache]
    refine ⟨hheap.1, hheap.2.trans h.capacity, ?_, fun k' => ?_, fun k' => ?_, h.settled, ?_⟩
    · show (c.heap.order.remove k).keys = (l.without k).keys
      rw [Recency.keys_remove, Lru.keys_without, h.order]
    · show (c.handles.erase k).get? k' = (l.without k).find? k'
      rw [Table.get?_erase, Lru.find?_without, h.handles]
    · show (c.heap.retained.erase k).get? k' = (l.without k).find? k'
      rw [Table.get?_erase, Lru.find?_without, h.retained]
    · exact h.apart.without k
  · show MapReply.truth _ = MapReply.truth _
    rw [h.tied.remove_answer, contains_eq, h.live?]
  · obtain ⟨-, s, hevents, -⟩ | ⟨-, hevents, -⟩ := h.tied.remove_cases w k
    · rw [hevents]
      rfl
    · rw [hevents]
      rfl

theorem Mirrors.touch (h : c.Mirrors l) {k : K} {s : Shared V} (hfind : l.find? k = some s)
    (m : Metrics) : Mirrors { c with heap := c.heap.touch k, metrics := m } (l.toFront k s) := by
  have hsame := Lru.find?_toFront_of_find? hfind
  refine ⟨h.heap.touch k, h.capacity, ?_, fun k' => ?_, fun k' => ?_, h.settled, ?_⟩
  · show (c.heap.order.moveToFront k).keys = _
    rw [Recency.keys_moveToFront (h.order ▸ Lru.mem_keys_of_find? hfind), h.keys_insert k s]
  · rw [hsame]
    exact h.handles k'
  · rw [hsame]
    exact h.retained k'
  · intro k₁ k₂ s₁ s₂ h₁ h₂
    rw [hsame] at h₁ h₂
    exact h.apart k₁ k₂ s₁ s₂ h₁ h₂

theorem Mirrors.withMetrics (h : c.Mirrors l) (m : Metrics) : Mirrors { c with metrics := m } l :=
  ⟨h.heap, h.capacity, h.order, h.handles, h.retained, h.settled, h.apart⟩

theorem Mirrors.get (h : c.Mirrors l) (w : World) (k : K) :
    Mirrored (l.serve (.get k)) (c.serve w (.get k)) := by
  show Mirrored _ ⟨.value (c.get w k).answer, (c.get w k).cache, (c.get w k).events⟩
  unfold Soft.get Lru.serve
  rw [h.sweep]
  dsimp only
  cases hfind : l.find? k with
  | none =>
    rw [(h.handles k).trans hfind]
    exact ⟨h.withMetrics _, rfl, rfl⟩
  | some s =>
    rw [(h.handles k).trans hfind]
    dsimp only
    rw [if_pos (h.alive hfind w)]
    exact ⟨h.touch hfind _, rfl, rfl⟩

theorem Mirrors.keys (h : c.Mirrors l) (w : World) :
    (c.keys w).answer.Perm l.keys ∧ (c.keys w).cache = c ∧ (c.keys w).events = [] := by
  unfold Soft.keys
  rw [h.sweep]
  refine ⟨Table.keys_perm h.nodup_keys fun k => ?_, rfl, rfl⟩
  have hlive : ((c.handles.keep fun _ s => c.alive w s).get? k) = l.find? k := by
    rw [Table.get?_keep]
    exact h.live? w k
  rw [Table.contains_eq, hlive, Lru.isSome_find?, decide_eq_true_iff]

theorem Mirrors.serve (h : c.Mirrors l) (r : MapRequest K (Shared V))
    (hr : ∀ k s, r = .insert k s → (l.toFront k s).Apart ∧
      ∀ k' s', (l.toFront k s).find? k' = some s' → w.holds s'.id = false) :
    Mirrored (l.serve r) (c.serve w r) := by
  cases r with
  | insert k s => exact h.insert (hr k s rfl).1 (hr k s rfl).2
  | remove k => exact h.remove w k
  | get k => exact h.get w k
  | contains k =>
    refine ⟨h, ?_, rfl⟩
    show MapReply.truth _ = MapReply.truth _
    rw [contains_eq, h.live?]
  | keys =>
    obtain ⟨hkeys, hcache, hevents⟩ := h.keys w
    refine ⟨?_, hkeys, ?_⟩
    · show (c.keys w).cache.Mirrors l
      rwa [hcache]
    · show (c.keys w).events.filter _ = []
      rw [hevents]
      rfl
  | size =>
    obtain ⟨hkeys, hcache, hevents⟩ := h.keys w
    refine ⟨?_, congrArg MapReply.count hkeys.length_eq, ?_⟩
    · show (c.keys w).cache.Mirrors l
      rwa [hcache]
    · show (c.keys w).events.filter _ = []
      rw [hevents]
      rfl

/-! ## Sequences of requests -/

def changes (c : Soft K V) :
    List (World × MapRequest K (Shared V)) → List (Change K V (MapReply K (Shared V)))
  | [] => []
  | (w, r) :: calls => c.serve w r :: (c.serve w r).cache.changes calls

omit [DecidableEq K] in
/-- The identity of the object that a request brings in. -/
def brings : MapRequest K (Shared V) → Option Nat
  | .insert _ s => some s.id
  | _ => none

omit [DecidableEq K] in
def brought (calls : List (World × MapRequest K (Shared V))) : List Nat :=
  calls.filterMap fun call => brings call.2

theorem Lru.find?_serve {l : Lru K (Shared V)} {r : MapRequest K (Shared V)} {k : K} {s : Shared V}
    (hfind : (l.serve r).map.find? k = some s) : l.find? k = some s ∨ brings r = some s.id := by
  cases r with
  | insert k' s' =>
    have hfind := Lru.find?_of_settle hfind
    rw [Lru.find?_toFront] at hfind
    split at hfind
    · exact .inr (congrArg (fun x => x.map Shared.id) hfind)
    · exact .inl hfind
  | remove k' =>
    have hfind : (l.without k').find? k = some s := hfind
    rw [Lru.find?_without] at hfind
    split at hfind
    · cases hfind
    · exact .inl hfind
  | get k' =>
    dsimp only [Lru.serve] at hfind
    split at hfind
    · rename_i s' hget
      exact .inl ((Lru.find?_toFront_of_find? hget k).symm.trans hfind)
    · exact .inl hfind
  | contains k' => exact .inl hfind
  | keys => exact .inl hfind
  | size => exact .inl hfind

theorem Mirrors.run (calls : List (World × MapRequest K (Shared V))) {c : Soft K V}
    {l : Lru K (Shared V)} (h : c.Mirrors l) (hfresh : (brought calls).Nodup)
    (hown : ∀ k s, l.find? k = some s →
      s.id ∉ brought calls ∧ ∀ call ∈ calls, call.1.holds s.id = false)
    (hunheld : ∀ id ∈ brought calls, ∀ call ∈ calls, call.1.holds id = false) :
    List.Forall₂ (fun out o => Mirrored o out) (c.changes calls) (l.run (calls.map Prod.snd)) := by
  induction calls generalizing c l with
  | nil => exact .nil
  | cons call calls ih =>
    obtain ⟨w, r⟩ := call
    have hbrought : brought ((w, r) :: calls) = (brings r).toList ++ brought calls := by
      unfold brought
      rw [List.filterMap_cons]
      cases brings r <;> rfl
    rw [hbrought] at hfresh hown hunheld
    -- the object that is brought is new to the map, and nobody holds it while it is stored
    have hserved : Mirrored (l.serve r) (c.serve w r) := by
      refine h.serve r fun k s heq => ?_
      have hid : s.id ∈ (brings r).toList ++ brought calls := by simp [heq, brings]
      refine ⟨h.apart.toFront fun k' s' hfind hsame => ?_, fun k' s' hfind => ?_⟩
      · exact (hown k' s' hfind).1 (hsame ▸ hid)
      · rw [Lru.find?_toFront] at hfind
        split at hfind
        · rw [← Option.some.inj hfind]
          exact hunheld s.id hid _ List.mem_cons_self
        · exact (hown k' s' hfind).2 _ List.mem_cons_self
    refine .cons hserved (ih hserved.mirrors (List.nodup_append'.1 hfresh).2.1 ?_ ?_)
    · intro k s hfind
      rcases Lru.find?_serve hfind with hthere | hbrings
      · refine ⟨fun hlater => (hown k s hthere).1 (List.mem_append_right _ hlater), ?_⟩
        exact fun call hcall => (hown k s hthere).2 call (List.mem_cons_of_mem _ hcall)
      · have hfirst : s.id ∈ (brings r).toList := by simp [hbrings]
        refine ⟨fun hlater => (List.nodup_append'.1 hfresh).2.2 hfirst hlater, ?_⟩
        exact fun call hcall =>
          hunheld s.id (List.mem_append_left _ hfirst) call (List.mem_cons_of_mem _ hcall)
    · exact fun id hid call hcall =>
        hunheld id (List.mem_append_right _ hid) call (List.mem_cons_of_mem _ hcall)

theorem mirrors_of_built {b : Builder} {w : World} {c : Soft K V} (h : b.buildSoft w = .ok c) :
    c.Mirrors (Lru.empty (b.config.softCapacity.getD defaultSoftCapacity)) := by
  rw [eq_make_of_built h]
  exact ⟨SoftHeap.sound_ofCapacity _, rfl, rfl, fun _ => rfl, fun _ => rfl, rfl, nofun⟩

/-- Every insertion brings an object of its own, and nobody holds one of them while any request is
served. Then the cache replies to the requests as a map of its capacity does. It tells of each key
that this map pushes out, without a value and as reclaimed, in the very insertion that pushes it out,
and of nothing else but removals. After each request no entry is dead. -/
theorem lru_while_unheld {b : Builder} {w : World} {c : Soft K V} (hbuilt : b.buildSoft w = .ok c)
    (calls : List (World × MapRequest K (Shared V))) (hfresh : (brought calls).Nodup)
    (hunheld : ∀ id ∈ brought calls, ∀ call ∈ calls, call.1.holds id = false) :
    List.Forall₂ (fun out o => out.answer.Agrees o.reply ∧
        out.events.filter (fun e => e.reason ≠ .removed) =
          o.evicted.map (fun gone => ⟨gone.1, none, .reclaimed⟩) ∧
        ∀ w' k, ¬ out.cache.Dead w' k)
      (c.changes calls)
      ((Lru.empty (b.config.softCapacity.getD defaultSoftCapacity)).run (calls.map Prod.snd)) := by
  have hmirrors := (mirrors_of_built hbuilt).run calls hfresh nofun hunheld
  refine hmirrors.imp fun out o h => ⟨h.agrees, ?_, h.mirrors.not_dead⟩
  rw [h.tells, reclaims, List.map_map]
  rfl

/-- Three values in a cache for two, with a look-up in between. -/
theorem lru_while_unheld_pair :
    let calls : List (World × MapRequest Nat (Shared UInt8)) :=
      [.insert 1 ⟨0, 7⟩, .insert 2 ⟨1, 8⟩, .get 1, .insert 3 ⟨2, 9⟩, .contains 2, .remove 1,
        .keys].map fun r => (⟨0, 3, [], .ofFiles []⟩, r)
    (brought calls).Nodup ∧ (∀ id ∈ brought calls, ∀ call ∈ calls, call.1.holds id = false) ∧
    List.Forall₂ (fun out o => out.answer.Agrees o.reply ∧
        out.events.filter (fun e => e.reason ≠ .removed) =
          o.evicted.map (fun gone => ⟨gone.1, none, .reclaimed⟩) ∧
        ∀ w' k, ¬ out.cache.Dead w' k)
      ((make "pair" 2 0).changes calls)
      ((Lru.empty 2).run [.insert 1 ⟨0, 7⟩, .insert 2 ⟨1, 8⟩, .get 1, .insert 3 ⟨2, 9⟩, .contains 2,
        .remove 1, .keys]) := by
  have hbuilt : (Builder.ofConfig "pair" { softCapacity := some 2 }).buildSoft ⟨0, 3, [], .ofFiles []⟩ =
      .ok (make "pair" 2 0 : Soft Nat UInt8) := rfl
  intro calls
  have hfresh : (brought calls).Nodup := by decide
  have hunheld : ∀ id ∈ brought calls, ∀ call ∈ calls, call.1.holds id = false := by
    simp [calls, World.holds]
  exact ⟨hfresh, hunheld, lru_while_unheld hbuilt calls hfresh hunheld⟩

end Soft

end CacheLayer
