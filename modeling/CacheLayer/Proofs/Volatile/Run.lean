import CacheLayer.Builder
import CacheLayer.Proofs.Expiring
import CacheLayer.Proofs.Volatile

/-!
# Runs of a volatile cache

What a volatile cache shows of a key is its entry, as long as that is not expired. No sweep changes
what is shown, whichever shard it meets, and each key has its one shard; so runs can be followed
without a look at hashes, shards or the generator.

* `present?` : what is shown of a key.
* `Placed` : each key lies in the shard of its hash alone.
* `Forgets` : what a sweep may do, and `sweep_forgets`, `insert_forgets` that it does no more.
* `mem_keys`, `nodup_keys` : the keys listed are those that show something.
* `placed_run` : keys are in their places after every run.
-/

namespace CacheLayer.Volatile

variable {K : Type u} {V : Type v}

theorem shard_close (c : Volatile K V) (i : Nat) : c.close.shard i = .empty := by
  show (c.shards.map fun _ => Table.empty)[i]?.getD .empty = _
  rw [List.getElem?_map]
  cases c.shards[i]? <;> rfl

theorem shard_make (name : String) (count : Nat) (hash : K → UInt64)
    (timeToLive timeToIdle : Option Duration) (now i : Nat) :
    (make name count hash timeToLive timeToIdle now : Volatile K V).shard i = .empty := by
  show (List.replicate count Table.empty)[i]?.getD .empty = _
  rw [List.getElem?_replicate]
  split <;> rfl

theorem shard_of_lt {c : Volatile K V} {i : Nat} (hi : i < c.shards.length) :
    c.shard i = c.shards[i] := by
  unfold shard
  rw [List.getElem?_eq_getElem hi]
  rfl

theorem shardOf_setShard (c : Volatile K V) (i : Nat) (t : Table K (Entry V)) (k : K) :
    (c.setShard i t).shardOf k = c.shardOf k := by
  unfold shardOf setShard
  rw [List.length_set]

theorem tally_foldl_expired {α : Type w} (gone : List (α × Expiration)) (m : Metrics) :
    (gone.foldl (fun m g => m.expired g.2) m).tally = m.tally := by
  induction gone generalizing m with
  | nil => rfl
  | cons g gone ih =>
    rw [List.foldl_cons, ih]
    cases g.2 <;> rfl

variable [DecidableEq K]

theorem stored?_setShard (c : Volatile K V) (i : Nat) (t : Table K (Entry V)) (k : K) :
    (c.setShard i t).stored? k =
      if i = c.shardOf k ∧ i < c.shards.length then t.get? k else c.stored? k := by
  unfold stored?
  rw [shardOf_setShard, shard_setShard]
  split
  · rfl
  · rfl

/-! ## Places -/

/-- There are shards, and each key lies in the one of its hash alone. -/
structure Placed (c : Volatile K V) : Prop where
  positive : 0 < c.shards.length
  own : ∀ i k, (c.shard i).contains k = true → i = c.shardOf k

theorem Placed.congr {c c' : Volatile K V} (h : c.Placed) (hhash : c'.hash = c.hash)
    (hshards : c'.shards = c.shards) : c'.Placed := by
  obtain ⟨hpositive, hown⟩ := h
  constructor
  · rw [hshards]
    exact hpositive
  · intro i k hk
    unfold shardOf
    unfold shard at hk
    rw [hhash, hshards]
    rw [hshards] at hk
    exact hown i k hk

theorem Placed.setShard {c : Volatile K V} (h : c.Placed) {i : Nat} {t : Table K (Entry V)}
    (ht : ∀ k, t.contains k = true → i = c.shardOf k) : (c.setShard i t).Placed := by
  refine ⟨?_, fun j k hk => ?_⟩
  · show 0 < (c.shards.set i t).length
    rw [List.length_set]
    exact h.positive
  · rw [shardOf_setShard]
    rw [shard_setShard] at hk
    split at hk
    · rename_i hsame
      rw [← hsame.1]
      exact ht k hk
    · exact h.own j k hk

theorem Placed.own_keep {c : Volatile K V} (h : c.Placed) {i : Nat} {p : K → Entry V → Bool} {k : K}
    (hk : ((c.shard i).keep p).contains k = true) : i = c.shardOf k := by
  obtain ⟨e, he⟩ := Table.get?_of_contains hk
  rw [Table.get?_keep, Option.filter_eq_some_iff] at he
  exact h.own i k (Table.contains_of_get? he.1)

theorem Placed.shardOf_lt {c : Volatile K V} (h : c.Placed) (k : K) :
    c.shardOf k < c.shards.length := Nat.mod_lt _ h.positive

theorem Placed.store {c : Volatile K V} (h : c.Placed) (k : K) (e : Entry V) :
    (c.store k e).Placed := by
  refine h.setShard fun k' hk' => ?_
  rw [Table.contains_insert, Bool.or_eq_true, decide_eq_true_iff] at hk'
  rcases hk' with rfl | hk'
  · rfl
  · exact h.own _ _ hk'

theorem Placed.erase {c : Volatile K V} (h : c.Placed) (k : K) : (c.erase k).Placed := by
  refine h.setShard fun k' hk' => ?_
  rw [Table.contains_erase, Bool.and_eq_true] at hk'
  exact h.own _ _ hk'.2

theorem Placed.stored?_store {c : Volatile K V} (h : c.Placed) (k k' : K) (e : Entry V) :
    (c.store k e).stored? k' = if k' = k then some e else c.stored? k' := by
  rw [Volatile.store, stored?_setShard, Table.get?_insert]
  have hlt := h.shardOf_lt k
  by_cases hk : k' = k
  · subst hk
    rw [if_pos ⟨rfl, hlt⟩, if_pos rfl, if_pos rfl]
  · rw [if_neg hk, if_neg hk]
    split
    · rename_i hsame
      rw [hsame.1]
      rfl
    · rfl

/-! ## What is shown -/

def present? (c : Volatile K V) (now : Nat) (k : K) : Option (Shared V × Timestamps) :=
  ((c.stored? k).filter (c.live now)).map fun e => (e.value, e.stamps)

theorem present?_wait (c : Volatile K V) {now later : Nat} (hle : now ≤ later) (k : K) :
    c.present? later k = (c.present? now k).filter fun e => e.2.valid later c.timeToIdle := by
  unfold present?
  rw [Option.filter_map]
  refine congrArg (Option.map _) (filter_filter_of_imp (fun e => ?_) _).symm
  exact Timestamps.valid_of_later hle

theorem get_answer_eq (c : Volatile K V) (now : Nat) (k : K) :
    (c.get now k).answer = (c.present? now k).map Prod.fst := by
  rw [get_answer, present?, Option.map_map]
  rfl

theorem contains_eq_isSome (c : Volatile K V) (now : Nat) (k : K) :
    c.contains now k = (c.present? now k).isSome := by
  rw [contains_eq, present?, Option.isSome_map]
  cases c.stored? k with
  | none => rfl
  | some e => cases hlive : c.live now e <;> simp [hlive]

/-! ## Sweeping -/

/-- `c'` is without entries that were expired at `now`; nothing else is different, but for the counters
of what expires. -/
structure Forgets (now : Nat) (c c' : Volatile K V) : Prop where
  timeToLive : c'.timeToLive = c.timeToLive
  timeToIdle : c'.timeToIdle = c.timeToIdle
  tally : c'.metrics.tally = c.metrics.tally
  placed : c.Placed → c'.Placed
  present? : ∀ k, c'.present? now k = c.present? now k

theorem Forgets.refl (now : Nat) (c : Volatile K V) : Forgets now c c :=
  ⟨rfl, rfl, rfl, id, fun _ => rfl⟩

theorem Forgets.trans {now : Nat} {c c' c'' : Volatile K V} (h : Forgets now c c')
    (h' : Forgets now c' c'') : Forgets now c c'' where
  timeToLive := h'.timeToLive.trans h.timeToLive
  timeToIdle := h'.timeToIdle.trans h.timeToIdle
  tally := h'.tally.trans h.tally
  placed := h'.placed ∘ h.placed
  present? k := (h'.present? k).trans (h.present? k)

theorem sweep_forgets (c : Volatile K V) (now i : Nat) : Forgets now c (c.sweep now i).cache := by
  unfold sweep
  split
  · exact .refl now c
  · refine ⟨rfl, rfl, tally_foldl_expired _ _, fun hplaced => ?_, fun k => ?_⟩
    · have hkept : (c.setShard i ((c.shard i).keep fun _ e => c.live now e)).Placed :=
        hplaced.setShard fun k => hplaced.own_keep
      exact hkept.congr rfl rfl
    · show ((((c.setShard i _).stored? k).filter (c.live now)).map _ : Option (Shared V × _)) = _
      rw [stored?_setShard]
      split
      · rename_i hsame
        rw [Table.get?_keep, hsame.1, Option.filter_filter]
        simp only [Bool.and_self]
        rfl
      · rfl

theorem sweepAll_forgets (c : Volatile K V) (now : Nat) (is : List Nat) :
    Forgets now c (c.sweepAll now is).cache := by
  induction is generalizing c with
  | nil => exact .refl now c
  | cons i is ih => exact (c.sweep_forgets now i).trans (ih _)

theorem purgeExpired_forgets (c : Volatile K V) (now : Nat) :
    Forgets now c (c.purgeExpired now).cache := c.sweepAll_forgets now _

/-- An insertion stores and counts; the sweep that it may come with takes nothing that is shown. -/
theorem insert_forgets (c : Volatile K V) (now : Nat) (k : K) (value : Shared V) :
    Forgets now
      { c.store k ⟨value, 1, .create now c.timeToLive c.timeToIdle⟩ with
        metrics := { c.metrics with inserts := c.metrics.inserts + 1 } }
      (c.insert now k value).cache := by
  have hdraw : ∀ (c : Volatile K V) (generator : Weyl), Forgets now c { c with generator } :=
    fun c generator => ⟨rfl, rfl, rfl, fun h => h.congr rfl rfl, fun _ => rfl⟩
  unfold insert
  dsimp only
  split
  · exact (hdraw _ _).trans (sweep_forgets _ now _)
  · exact hdraw _ _

/-! ## Requests -/

def serve (c : Volatile K V) (now : Nat) :
    MapRequest K (Shared V) → MapReply K (Shared V) × Volatile K V
  | .insert k value => (.done, (c.insert now k value).cache)
  | .remove k => (.truth (c.remove now k).answer, (c.remove now k).cache)
  | .get k => (.value (c.get now k).answer, (c.get now k).cache)
  | .contains k => (.truth (c.contains now k), c)
  | .keys => (.keys (c.keys now), c)
  | .size => (.count (c.size now), c)

/-- What a run comes to: the replies in their order, the cache and the reading of the clock after it. -/
structure Record (K : Type u) (V : Type v) where
  replies : List (MapReply K (Shared V))
  cache : Volatile K V
  now : Nat

def run (c : Volatile K V) (now : Nat) : List (MapTurn K (Shared V)) → Record K V
  | [] => ⟨[], c, now⟩
  | .wait time :: turns => c.run (now + time) turns
  | .request r :: turns =>
    let rest := (c.serve now r).2.run now turns
    { rest with replies := (c.serve now r).1 :: rest.replies }
  | .purgeExpired :: turns => (c.purgeExpired now).cache.run now turns
  | .close :: turns => c.close.run now turns

/-! ## Keys stay in their places -/

theorem placed_make (name : String) {count : Nat} (hcount : 0 < count) (hash : K → UInt64)
    (timeToLive timeToIdle : Option Duration) (now : Nat) :
    (make name count hash timeToLive timeToIdle now : Volatile K V).Placed := by
  constructor
  · show 0 < (List.replicate count Table.empty).length
    rwa [List.length_replicate]
  · intro i k hk
    rw [shard_make, Table.contains_empty] at hk
    cases hk

omit [DecidableEq K] in
theorem eq_make_of_built {b : Builder} {st : Storage K V} {w : World} {c : Volatile K V}
    (h : b.buildVolatile st w = .ok c) :
    c = make b.name (nextPowerOfTwo b.shards) st.hash b.config.timeToLive b.config.timeToIdle
      w.now := by
  unfold Builder.buildVolatile at h
  cases hvalid : b.validate .volatile with
  | error e =>
    rw [hvalid] at h
    cases h
  | ok u =>
    rw [hvalid] at h
    exact (Except.ok.inj h).symm

theorem nextPowerOfTwo_pos (n : Nat) : 0 < nextPowerOfTwo n := by
  unfold nextPowerOfTwo
  split
  · exact Nat.one_pos
  · rw [Nat.one_shiftLeft]
    exact Nat.two_pow_pos _

theorem placed_of_built {b : Builder} {st : Storage K V} {w : World} {c : Volatile K V}
    (h : b.buildVolatile st w = .ok c) : c.Placed := by
  rw [eq_make_of_built h]
  exact placed_make _ (nextPowerOfTwo_pos b.shards) _ _ _ _

theorem Placed.close {c : Volatile K V} (h : c.Placed) : c.close.Placed := by
  constructor
  · show 0 < (c.shards.map fun _ => Table.empty).length
    rw [List.length_map]
    exact h.positive
  · intro i k hk
    rw [shard_close, Table.contains_empty] at hk
    cases hk

theorem Placed.remove {c : Volatile K V} (h : c.Placed) (now : Nat) (k : K) :
    (c.remove now k).cache.Placed := by
  unfold Volatile.remove
  split
  · exact h
  · split
    · exact (h.erase k).congr rfl rfl
    · exact (h.erase k).congr rfl rfl

theorem Placed.get {c : Volatile K V} (h : c.Placed) (now : Nat) (k : K) :
    (c.get now k).cache.Placed := by
  unfold Volatile.get
  split
  · exact h.congr rfl rfl
  · rename_i e _
    split
    · exact (h.erase k).congr rfl rfl
    · cases c.timeToIdle with
      | none => exact h.congr rfl rfl
      | some d => exact (h.store k _).congr rfl rfl

theorem Placed.serve {c : Volatile K V} (h : c.Placed) (now : Nat) (r : MapRequest K (Shared V)) :
    (c.serve now r).2.Placed := by
  cases r with
  | insert k value => exact (c.insert_forgets now k value).placed ((h.store k _).congr rfl rfl)
  | remove k => exact h.remove now k
  | get k => exact h.get now k
  | contains k => exact h
  | keys => exact h
  | size => exact h

theorem placed_run {c : Volatile K V} (h : c.Placed) (now : Nat) (turns : List (MapTurn K (Shared V))) :
    (c.run now turns).cache.Placed := by
  induction turns generalizing c now with
  | nil => exact h
  | cons turn turns ih =>
    cases turn with
    | wait time => exact ih h _
    | request r => exact ih (h.serve now r) now
    | purgeExpired => exact ih ((c.purgeExpired_forgets now).placed h) now
    | close => exact ih h.close now

/-! ## Listing -/

theorem Placed.mem_keys {c : Volatile K V} (h : c.Placed) (now : Nat) (k : K) :
    k ∈ c.keys now ↔ (c.present? now k).isSome = true := by
  have hshown : ∀ i, k ∈ ((c.shard i).keep fun _ e => c.live now e).keys ↔
      (((c.shard i).get? k).filter (c.live now)).isSome = true := by
    intro i
    rw [Table.mem_keys, Table.contains, Table.get?_keep]
  unfold keys present?
  rw [List.mem_flatMap, Option.isSome_map]
  constructor
  · rintro ⟨t, ht, hk⟩
    obtain ⟨i, hi, rfl⟩ := List.getElem_of_mem ht
    rw [← shard_of_lt hi] at hk
    have hown : i = c.shardOf k := h.own_keep ((Table.mem_keys _ _).1 hk)
    rw [hshown, hown] at hk
    exact hk
  · intro hk
    have hlt := h.shardOf_lt k
    refine ⟨c.shards[c.shardOf k], List.getElem_mem hlt, ?_⟩
    rw [← shard_of_lt hlt]
    exact (hshown _).2 hk

theorem Placed.nodup_keys {c : Volatile K V} (h : c.Placed) (now : Nat) : (c.keys now).Nodup := by
  unfold keys
  rw [List.nodup_flatMap]
  refine ⟨fun t _ => Table.nodup_keys _, List.pairwise_iff_getElem.2 fun i j hi hj hij => ?_⟩
  -- A key that two shards list would have two places.
  intro k hki hkj
  rw [← shard_of_lt hi] at hki
  rw [← shard_of_lt hj] at hkj
  have hi' := h.own_keep ((Table.mem_keys _ _).1 hki)
  have hj' := h.own_keep ((Table.mem_keys _ _).1 hkj)
  omega

end CacheLayer.Volatile
