import CacheLayer.Proofs.Expelling
import CacheLayer.Proofs.Volatile.Events

/-!
# A purge of all shards as one step

A purge of a volatile cache sweeps one shard after the other. As each key lies in one shard, the sweeps
come to one step, in which every shard keeps what is not expired.

* `Volatile.keep` : the cache that keeps the keys of a kind.
* `Volatile.expelled` : what it comes to that a list of expired keys is dropped, and
  `expelled_append` that this may be done in parts.
* `Placed.sweep_eq`, `Placed.sweepAll_eq` : one shard, and several.
* `Dated` : without a time to live no entry expires at a set reading; `dated_run`.
* `Placed.purgeExpired_eq`, `Placed.purgeExpired_again` : the purge, and another one.
-/

namespace CacheLayer.Volatile

variable {K : Type u} {V : Type v}

def keep (p : K → Bool) (c : Volatile K V) : Volatile K V :=
  { c with shards := c.shards.map (Table.keep fun k _ => p k) }

theorem shard_keep (c : Volatile K V) (p : K → Bool) (i : Nat) :
    (c.keep p).shard i = (c.shard i).keep fun k _ => p k := by
  unfold shard keep
  rw [List.getElem?_map]
  cases c.shards[i]? <;> rfl

theorem shardOf_keep (c : Volatile K V) (p : K → Bool) (k : K) :
    (c.keep p).shardOf k = c.shardOf k := by
  unfold shardOf keep
  rw [List.length_map]

theorem keep_keep (c : Volatile K V) (p q : K → Bool) :
    (c.keep p).keep q = c.keep fun k => p k && q k := by
  have hshards : (c.shards.map (Table.keep fun k _ => p k)).map (Table.keep fun k _ => q k) =
      c.shards.map (Table.keep fun k _ => p k && q k) := by
    rw [List.map_map]
    exact List.map_congr_left fun t _ => t.keep_keep _ _
  simp only [keep, hshards]

theorem keep_eq_self {c : Volatile K V} {p : K → Bool}
    (hp : ∀ t ∈ c.shards, ∀ e ∈ t.entries, p e.1 = true) : c.keep p = c := by
  have hshards : c.shards.map (Table.keep fun k _ => p k) = c.shards.map id :=
    List.map_congr_left fun t ht => Table.keep_eq_self (hp t ht)
  unfold keep
  rw [hshards, List.map_id]

def due (c : Volatile K V) (now i : Nat) : List (K × Expiration) :=
  (c.shard i).due (c.expiration now)

variable [DecidableEq K] {c : Volatile K V} {now : Nat} {k : K}

def reason (c : Volatile K V) (now : Nat) (k : K) : Option Expiration :=
  (c.stored? k).bind (c.expiration now)

def atHand? (c : Volatile K V) (k : K) : Option (Shared V) := (c.stored? k).map Entry.value

theorem stored?_keep (c : Volatile K V) (p : K → Bool) (k : K) :
    (c.keep p).stored? k = (c.stored? k).filter fun _ => p k := by
  unfold stored?
  rw [shardOf_keep, shard_keep, Table.get?_keep]

theorem atHand?_keep (c : Volatile K V) {p : K → Bool} (hk : p k = true) :
    (c.keep p).atHand? k = c.atHand? k := by
  unfold atHand?
  rw [stored?_keep]
  cases c.stored? k <;> simp [hk]

theorem reason_keep (c : Volatile K V) (now : Nat) (p : K → Bool) (k : K) :
    (c.keep p).reason now k = if p k then c.reason now k else none := by
  unfold reason
  rw [stored?_keep]
  exact bind_filter_const _ _ _

/-! ## Dropping a list of keys -/

/-- What it comes to that the keys of `gone` expire. -/
def expelled (c : Volatile K V) (gone : List (K × Expiration)) : Change K V Unit where
  answer := ()
  cache := { c.keep (unlisted gone) with metrics := c.metrics.expiredAll gone }
  events := expiryNotices c.atHand? gone

theorem expelled_nil (c : Volatile K V) : c.expelled [] = ⟨(), c, []⟩ := by
  have hself : c.keep (unlisted []) = c := keep_eq_self fun _ _ _ _ => by simp [unlisted]
  unfold expelled
  rw [hself]
  rfl

theorem expelled_append (c : Volatile K V) (gone gone' : List (K × Expiration))
    (hapart : ∀ g ∈ gone', g.1 ∉ gone.map Prod.fst) :
    (⟨(), ((c.expelled gone).cache.expelled gone').cache,
      (c.expelled gone).events ++ ((c.expelled gone).cache.expelled gone').events⟩ : Change K V Unit) =
        c.expelled (gone ++ gone') := by
  have hstate : (c.keep (unlisted gone)).keep (unlisted gone') =
      c.keep (unlisted (gone ++ gone')) := by rw [keep_keep, unlisted_append]
  have hlog : expiryNotices (c.keep (unlisted gone)).atHand? gone' =
      expiryNotices c.atHand? gone' :=
    expiryNotices_congr fun g hg => c.atHand?_keep (decide_eq_true (hapart g hg))
  unfold expelled
  rw [expiryNotices_append, Metrics.expiredAll_append, ← hstate, ← hlog]
  rfl

/-! ## What is due -/

theorem Placed.mem_due (h : c.Placed) {i : Nat} {x : Expiration} :
    (k, x) ∈ c.due now i ↔ i = c.shardOf k ∧ c.reason now k = some x := by
  unfold due reason stored?
  rw [Table.mem_due, Option.bind_eq_some_iff]
  constructor
  · rintro ⟨e, hget, hx⟩
    obtain rfl := h.own i k (Table.contains_of_get? hget)
    exact ⟨rfl, e, hget, hx⟩
  · rintro ⟨rfl, e, hget, hx⟩
    exact ⟨e, hget, hx⟩

/-- A key is due in one shard alone. -/
theorem Placed.due_apart (h : c.Placed) {i j : Nat} (hne : i ≠ j) {g : K × Expiration}
    (hg : g ∈ c.due now j) : g.1 ∉ (c.due now i).map Prod.fst := by
  intro hmem
  obtain ⟨⟨k, x⟩, hdue, hk⟩ := List.mem_map.1 hmem
  have hi : i = c.shardOf k := (h.mem_due.1 hdue).1
  have hj : j = c.shardOf g.1 := (h.mem_due.1 hg).1
  rw [← hk] at hj
  exact hne (hi.trans hj.symm)

theorem Placed.lists_due (h : c.Placed) (now : Nat) :
    Lists ((List.range c.shards.length).flatMap (c.due now)) (c.reason now) where
  nodup := by
    rw [List.map_flatMap, List.nodup_flatMap]
    refine ⟨fun i _ => Table.nodup_due _ _, ?_⟩
    refine List.nodup_range.imp fun hne k hi hj => ?_
    obtain ⟨g, hg, rfl⟩ := List.mem_map.1 hj
    exact h.due_apart hne hg hi
  mem k x := by
    rw [List.mem_flatMap]
    constructor
    · rintro ⟨i, -, hdue⟩
      exact (h.mem_due.1 hdue).2
    · exact fun hx => ⟨c.shardOf k, List.mem_range.2 (h.shardOf_lt k), h.mem_due.2 ⟨rfl, hx⟩⟩

theorem Placed.reason_of_mem (h : c.Placed) (now : Nat) {i : Nat} {e : K × Entry V}
    (he : e ∈ (c.shard i).entries) :
    c.shardOf e.1 = i ∧ c.atHand? e.1 = some e.2.value ∧
      c.reason now e.1 = c.expiration now e.2 := by
  have hget : (c.shard i).get? e.1 = some e.2 := (Table.mem_entries _ _ _).1 he
  have hstored := h.stored?_of_shard hget
  refine ⟨(h.own i e.1 (Table.contains_of_get? hget)).symm, ?_, ?_⟩
  · rw [atHand?, hstored, Option.map_some]
  · rw [reason, hstored, Option.bind_some]

theorem Placed.mem_keys_due (h : c.Placed) {i : Nat} :
    k ∈ (c.due now i).map Prod.fst ↔ i = c.shardOf k ∧ (c.reason now k).isSome = true := by
  rw [List.mem_map, Option.isSome_iff_exists]
  constructor
  · rintro ⟨⟨k', x⟩, hg, rfl⟩
    obtain ⟨hi, hx⟩ := h.mem_due.1 hg
    exact ⟨hi, x, hx⟩
  · rintro ⟨hi, x, hx⟩
    exact ⟨(k, x), h.mem_due.2 ⟨hi, hx⟩, rfl⟩

/-! ## Sweeping -/

theorem Placed.shards_sweep (h : c.Placed) (now i : Nat) :
    c.shards.set i ((c.shard i).keep fun _ e => c.live now e) =
      c.shards.map (Table.keep fun k _ => unlisted (c.due now i) k) := by
  refine List.ext_getElem (by simp) fun j hj hj' => ?_
  rw [List.length_map] at hj'
  rw [List.getElem_set, List.getElem_map, ← shard_of_lt hj']
  split
  · rename_i hi
    subst hi
    refine Table.keep_congr fun e he => ?_
    obtain ⟨hown, -, hreason⟩ := h.reason_of_mem now he
    rw [Bool.eq_iff_iff, unlisted, decide_eq_true_eq, h.mem_keys_due, hown, hreason, live]
    cases c.expiration now e.2 <;> simp
  · rename_i hne
    refine (Table.keep_eq_self fun e he => ?_).symm
    rw [unlisted, decide_eq_true_eq, h.mem_keys_due, (h.reason_of_mem now he).1]
    exact fun hdue => hne hdue.1

theorem Placed.sweep_eq (h : c.Placed) (now : Nat) (htimed : c.timeless = false) (i : Nat) :
    c.sweep now i = c.expelled (c.due now i) := by
  let gone := (c.shard i).entries.filterMap fun e => (c.expiration now e.2).map fun x => (e, x)
  have hdue : c.due now i = gone.map fun g => (g.1.1, g.2) := by
    unfold due Table.due
    rw [List.map_filterMap]
    simp only [Option.map_map]
    rfl
  have hmetrics : gone.foldl (fun m g => m.expired g.2) c.metrics =
      c.metrics.expiredAll (c.due now i) := by
    rw [hdue, Metrics.expiredAll, List.foldl_map]
  have hevents : gone.map (fun g => ⟨g.1.1, some g.1.2.value, .expired⟩) =
      expiryNotices c.atHand? (c.due now i) := by
    rw [hdue, expiryNotices, List.map_map]
    refine List.map_congr_left fun g hg => ?_
    obtain ⟨e, he, hx⟩ := List.mem_filterMap.1 hg
    obtain ⟨x, -, rfl⟩ := Option.map_eq_some_iff.1 hx
    rw [Function.comp_apply, (h.reason_of_mem now he).2.1]
  unfold sweep
  rw [if_neg (Bool.eq_false_iff.1 htimed)]
  show (⟨(), { c.setShard i _ with metrics := gone.foldl _ c.metrics }, gone.map _⟩ :
    Change K V Unit) = _
  rw [hmetrics, hevents, Volatile.setShard, h.shards_sweep]
  rfl

omit [DecidableEq K] in
theorem due_sweep (c : Volatile K V) (now : Nat) {i j : Nat} (hne : i ≠ j) :
    (c.sweep now i).cache.due now j = c.due now j := by
  unfold sweep
  split
  · rfl
  · show ((c.setShard i _).shard j).due (c.expiration now) = _
    rw [shard_setShard, if_neg fun hsame => hne hsame.1]
    rfl

theorem Placed.sweepAll_eq (h : c.Placed) (htimed : c.timeless = false) {is : List Nat}
    (hnodup : is.Nodup) : c.sweepAll now is = c.expelled (is.flatMap (c.due now)) := by
  induction is generalizing c with
  | nil => exact (c.expelled_nil).symm
  | cons i is ih =>
    obtain ⟨hnot, hrest⟩ := List.nodup_cons.1 hnodup
    have hother (j : Nat) (hj : j ∈ is) : i ≠ j := fun heq => hnot (heq ▸ hj)
    have hfirst := h.sweep_eq now htimed i
    have hforgets := c.sweep_forgets now i
    have hnext : (c.sweep now i).cache.timeless = false := by
      unfold timeless at htimed ⊢
      rw [hforgets.timeToLive, hforgets.timeToIdle, htimed]
    have hdue : is.flatMap ((c.sweep now i).cache.due now) = is.flatMap (c.due now) := by
      exact List.flatMap_congr fun j hj => c.due_sweep now (hother j hj)
    have hlater := ih (hforgets.placed h) hnext hrest
    rw [hdue, hfirst] at hlater
    rw [sweepAll, List.flatMap_cons, ← c.expelled_append]
    · rw [hfirst, hlater]
    · intro g hg
      obtain ⟨j, hj, hg⟩ := List.mem_flatMap.1 hg
      exact h.due_apart (hother j hj) hg

/-! ## Without timeouts -/

/-- Without a time to live no entry expires at a set reading. -/
def Dated (c : Volatile K V) : Prop :=
  c.timeToLive = none → ∀ k e, c.stored? k = some e → e.stamps.expiresAt = 0

theorem Dated.mono {c' : Volatile K V} (h : c.Dated) (hlive : c'.timeToLive = c.timeToLive)
    (hfewer : ∀ k e, c'.stored? k = some e → c.stored? k = some e) : c'.Dated :=
  fun hnone k e he => h (hlive.symm.trans hnone) k e (hfewer k e he)

theorem Dated.store (h : c.Dated) (hc : c.Placed) (k : K) {e : Entry V}
    (he : c.timeToLive = none → e.stamps.expiresAt = 0) : (c.store k e).Dated := by
  intro hnone k' e' hget
  rw [hc.stored?_store] at hget
  split at hget
  · rw [← Option.some.inj hget]
    exact he hnone
  · exact h hnone k' e' hget

theorem Dated.erase (h : c.Dated) (k : K) : (c.erase k).Dated := by
  refine h.mono rfl fun k' e hget => ?_
  rw [stored?_erase] at hget
  split at hget
  · cases hget
  · exact hget

theorem Dated.sweepAll (h : c.Dated) (now : Nat) (is : List Nat) :
    (c.sweepAll now is).cache.Dated :=
  h.mono (c.sweepAll_forgets now is).timeToLive fun _ _ => stored?_sweepAll is

theorem Dated.insert (h : c.Dated) (hc : c.Placed) (now : Nat) (k : K) (value : Shared V) :
    (c.insert now k value).cache.Dated := by
  have hstored := h.store hc k (e := ⟨value, 1, .create now c.timeToLive c.timeToIdle⟩) fun hnone => by
    rw [hnone]
    rfl
  exact hstored.mono (c.insert_forgets now k value).timeToLive fun _ _ => stored?_insert

theorem Dated.remove (h : c.Dated) (now : Nat) (k : K) : (c.remove now k).cache.Dated := by
  unfold Volatile.remove
  split
  · exact h
  · split
    · exact (h.erase k).mono rfl fun _ _ => id
    · exact (h.erase k).mono rfl fun _ _ => id

theorem Dated.get (h : c.Dated) (hc : c.Placed) (now : Nat) (k : K) :
    (c.get now k).cache.Dated := by
  unfold Volatile.get
  split
  · exact h.mono rfl fun _ _ => id
  · rename_i e hstored
    split
    · exact (h.erase k).mono rfl fun _ _ => id
    · have htouched : (c.store k { e with stamps := e.stamps.touch now }).Dated :=
        h.store hc k fun hnone => h hnone k e hstored
      dsimp only
      split
      · exact htouched.mono rfl fun _ _ => id
      · exact h.mono rfl fun _ _ => id

theorem Dated.serve (h : c.Dated) (hc : c.Placed) (now : Nat) (r : MapRequest K (Shared V)) :
    (c.serve now r).2.Dated := by
  cases r with
  | insert k value => exact h.insert hc now k value
  | remove k => exact h.remove now k
  | get k => exact h.get hc now k
  | contains k => exact h
  | keys => exact h
  | size => exact h

theorem dated_run (h : c.Dated) (hc : c.Placed) (now : Nat) (turns : List (MapTurn K (Shared V))) :
    (c.run now turns).cache.Dated := by
  induction turns generalizing c now with
  | nil => exact h
  | cons turn turns ih =>
    cases turn with
    | wait time => exact ih h hc _
    | request r => exact ih (h.serve hc now r) (hc.serve now r) now
    | purgeExpired =>
      exact ih (h.sweepAll now _) ((c.purgeExpired_forgets now).placed hc) now
    | close =>
      have hclosed : c.close.Dated := fun _ k e he => by
        rw [stored?_close] at he
        cases he
      exact ih hclosed hc.close now

theorem dated_of_built {b : Builder} {st : Storage K V} {w : World}
    (h : b.buildVolatile st w = .ok c) : c.Dated := by
  intro _ k e he
  rw [eq_make_of_built h, stored?, shard_make] at he
  cases he

theorem Dated.reason_eq_none (h : c.Dated) (now : Nat) (htimeless : c.timeless = true) (k : K) :
    c.reason now k = none := by
  rw [timeless, Bool.and_eq_true, Option.isNone_iff_eq_none, Option.isNone_iff_eq_none] at htimeless
  unfold reason
  cases hstored : c.stored? k with
  | none => rfl
  | some e =>
    have hzero : e.stamps.expiresAt = 0 := h htimeless.1 k e hstored
    simp [expiration, Timestamps.expiration, hzero, htimeless.2]

/-! ## The purge -/

omit [DecidableEq K] in
theorem sweepAll_of_timeless (htimeless : c.timeless = true) (now : Nat) (is : List Nat) :
    c.sweepAll now is = ⟨(), c, []⟩ := by
  induction is with
  | nil => rfl
  | cons i is ih =>
    have hfirst : c.sweep now i = ⟨(), c, []⟩ := if_pos htimeless
    rw [sweepAll, hfirst]
    dsimp only
    rw [ih]
    rfl

theorem Placed.purgeExpired_eq (h : c.Placed) (hdated : c.Dated) (now : Nat) :
    c.purgeExpired now = c.expelled ((List.range c.shards.length).flatMap (c.due now)) := by
  cases htimed : c.timeless with
  | true =>
    rw [(h.lists_due now).eq_nil (hdated.reason_eq_none now htimed), expelled_nil]
    exact sweepAll_of_timeless htimed now _
  | false => exact h.sweepAll_eq htimed List.nodup_range

theorem Placed.cache_purgeExpired (h : c.Placed) (hdated : c.Dated) (now : Nat) :
    (c.purgeExpired now).cache = { c.keep fun k => (c.reason now k).isNone with
      metrics := c.metrics.expiredAll ((List.range c.shards.length).flatMap (c.due now)) } := by
  rw [h.purgeExpired_eq hdated, ← (h.lists_due now).unlisted_eq]
  rfl

theorem Placed.reason_purgeExpired (h : c.Placed) (hdated : c.Dated) (now : Nat) (k : K) :
    (c.purgeExpired now).cache.reason now k = none := by
  rw [h.cache_purgeExpired hdated]
  refine (c.reason_keep now _ k).trans ?_
  cases hreason : c.reason now k <;> simp

theorem Placed.purgeExpired_again (h : c.Placed) (hdated : c.Dated) (now : Nat) :
    (c.purgeExpired now).cache.purgeExpired now = ⟨(), (c.purgeExpired now).cache, []⟩ := by
  have hplaced := (c.purgeExpired_forgets now).placed h
  have hnothing := (hplaced.lists_due now).eq_nil (h.reason_purgeExpired hdated now)
  rw [hplaced.purgeExpired_eq (hdated.sweepAll now _), hnothing, expelled_nil]

end CacheLayer.Volatile
