import CacheLayer.Proofs.Volatile.Run
import Mathlib.Algebra.Group.Nat.Defs

/-!
# A volatile cache is one map

From outside nothing tells how many shards a volatile cache has, which hash spreads the keys over
them or what its generator draws: it answers as one map from which nothing is ever swept, and counts
the same hits, misses, insertions and removals.

* `Resembles` : cache and map show the same of every key.
* `Resembles.serve`, `Resembles.wait` : they do so after every request and as time passes.
* `one_plain_map` : they answer alike through every run, and so do two caches that are spread in
  different ways.
-/

namespace CacheLayer

variable {K : Type u} {V : Type v} [DecidableEq K]

namespace Volatile

theorem Placed.present?_store {c : Volatile K V} (h : c.Placed) (now : Nat) (k k' : K) (e : Entry V) :
    (c.store k e).present? now k' =
      if k' = k then (some (e.value, e.stamps)).filter fun e => e.2.valid now c.timeToIdle
      else c.present? now k' := by
  have hlive : (c.store k e).live now = c.live now := rfl
  unfold Volatile.present?
  rw [h.stored?_store, hlive]
  split
  · rw [Option.filter_some, Option.filter_some]
    show Option.map _ (if c.live now e = true then _ else _) = if c.live now e = true then _ else _
    split
    · rfl
    · rfl
  · rfl

theorem present?_erase (c : Volatile K V) (now : Nat) (k k' : K) :
    (c.erase k).present? now k' = if k' = k then none else c.present? now k' := by
  have hlive : (c.erase k).live now = c.live now := rfl
  unfold Volatile.present?
  rw [stored?_erase, hlive]
  split
  · rfl
  · rfl

theorem present?_eq_none {c : Volatile K V} {now : Nat} {k : K} (h : c.stored? k = none) :
    c.present? now k = none := by
  unfold present?
  rw [h]
  rfl

theorem present?_eq_none_of_expiration {c : Volatile K V} {now : Nat} {k : K} {e : Entry V}
    {x : Expiration} (h : c.stored? k = some e) (hx : c.expiration now e = some x) :
    c.present? now k = none := by
  unfold present? live
  rw [h, Option.filter_some, hx]
  rfl

theorem present?_eq_some {c : Volatile K V} {now : Nat} {k : K} {e : Entry V}
    (h : c.stored? k = some e) (hx : c.expiration now e = none) :
    c.present? now k = some (e.value, e.stamps) := by
  unfold present? live
  rw [h, Option.filter_some, hx]
  rfl

/-- Cache and map show the same of every key and have counted the same. -/
structure Resembles (now : Nat) (c : Volatile K V) (m : Expiring K V) : Prop where
  placed : c.Placed
  timeToLive : c.timeToLive = m.timeToLive
  timeToIdle : c.timeToIdle = m.timeToIdle
  tally : c.metrics.tally = m.tally
  present? : ∀ k, c.present? now k = m.present? now k

namespace Resembles

variable {now : Nat} {c c' : Volatile K V} {m : Expiring K V}

theorem forget (h : Resembles now c m) (hforgets : Forgets now c c') : Resembles now c' m where
  placed := hforgets.placed h.placed
  timeToLive := hforgets.timeToLive.trans h.timeToLive
  timeToIdle := hforgets.timeToIdle.trans h.timeToIdle
  tally := hforgets.tally.trans h.tally
  present? k := (hforgets.present? k).trans (h.present? k)

theorem wait (h : Resembles now c m) (time : Nat) : Resembles (now + time) c m := by
  refine { h with present? := fun k => ?_ }
  have hle : now ≤ now + time := Nat.le_add_right now time
  rw [c.present?_wait hle, m.present?_wait hle, h.present?, h.timeToIdle]

theorem close (h : Resembles now c m) : Resembles now c.close { m with entries := .empty } := by
  refine ⟨h.placed.close, h.timeToLive, h.timeToIdle, h.tally, fun k => ?_⟩
  rw [present?_eq_none]
  · rfl
  · unfold stored?
    rw [shard_close, Table.get?_empty]

theorem erase (h : Resembles now c m) {k : K} (hk : m.present? now k = none) :
    Resembles now (c.erase k) m := by
  refine ⟨h.placed.erase k, h.timeToLive, h.timeToIdle, h.tally, fun k' => ?_⟩
  rw [present?_erase, h.present?]
  split
  · rename_i heq
    rw [heq, hk]
  · rfl

theorem count (h : Resembles now c m) {metrics : Metrics} {tally : Tally}
    (htally : metrics.tally = tally) :
    Resembles now { c with metrics := metrics } { m with tally := tally } :=
  ⟨h.placed.congr rfl rfl, h.timeToLive, h.timeToIdle, htally, h.present?⟩

theorem store (h : Resembles now c m) (k : K) (e : Entry V) {metrics : Metrics} {tally : Tally}
    (htally : metrics.tally = tally) :
    Resembles now { c.store k e with metrics := metrics }
      { m with entries := m.entries.insert k (e.value, e.stamps), tally := tally } := by
  refine ⟨(h.placed.store k e).congr rfl rfl, h.timeToLive, h.timeToIdle, htally, fun k' => ?_⟩
  rw [Expiring.present?_insert, ← h.present?, ← h.timeToIdle]
  exact h.placed.present?_store now k k' e

/-- Without a limit to idling the map puts the entry in its own place. -/
theorem touch (h : Resembles now c m) {k : K} {e : Entry V}
    (hpresent : c.present? now k = some (e.value, e.stamps)) {metrics : Metrics} {tally : Tally}
    (htally : metrics.tally = tally) :
    Resembles now
      { (if c.timeToIdle.isSome then c.store k { e with stamps := e.stamps.touch now } else c) with
        metrics := metrics }
      { m with
        entries := m.entries.insert k (e.value, e.stamps.used now m.timeToIdle), tally := tally } := by
  unfold Timestamps.used
  by_cases hidle : c.timeToIdle.isSome = true
  · have hidle' : m.timeToIdle.isSome = true := h.timeToIdle ▸ hidle
    rw [if_pos hidle, if_pos hidle']
    exact h.store k { e with stamps := e.stamps.touch now } htally
  · have hidle' : ¬ m.timeToIdle.isSome = true := h.timeToIdle ▸ hidle
    rw [if_neg hidle, if_neg hidle']
    refine ⟨h.placed.congr rfl rfl, h.timeToLive, h.timeToIdle, htally, fun k' => ?_⟩
    have hsame := hpresent.symm.trans (h.present? k)
    have hvalid : e.stamps.valid now m.timeToIdle = true :=
      (Option.filter_eq_some_iff.1 hsame.symm).2
    rw [Expiring.present?_insert]
    split
    · rename_i hk
      rw [hk, Option.filter_some, if_pos hvalid]
      exact hpresent
    · exact h.present? k'

theorem insert (h : Resembles now c m) (k : K) (value : Shared V) :
    Resembles now (c.insert now k value).cache (m.serve now (.insert k value)).2 := by
  refine Resembles.forget ?_ (c.insert_forgets now k value)
  have htally : ({ c.metrics with inserts := c.metrics.inserts + 1 } : Metrics).tally =
      { m.tally with inserts := m.tally.inserts + 1 } := by
    rw [← h.tally]
    rfl
  have hstamps : Timestamps.create now c.timeToLive c.timeToIdle =
      .create now m.timeToLive m.timeToIdle := by
    rw [h.timeToLive, h.timeToIdle]
  rw [hstamps]
  exact h.store k ⟨value, 1, .create now m.timeToLive m.timeToIdle⟩ htally

theorem remove (h : Resembles now c m) (k : K) :
    MapReply.truth (c.remove now k).answer = (m.serve now (.remove k)).1 ∧
      Resembles now (c.remove now k).cache (m.serve now (.remove k)).2 := by
  have hsame := h.present? k
  unfold Volatile.remove
  cases hentry : c.stored? k with
  | none =>
    rw [present?_eq_none hentry] at hsame
    rw [Expiring.serve_remove_absent hsame.symm]
    exact ⟨rfl, h⟩
  | some e =>
    cases hx : c.expiration now e with
    | some x =>
      rw [present?_eq_none_of_expiration hentry hx] at hsame
      have htally : (c.metrics.expired x).tally = m.tally := by
        rw [← h.tally]
        cases x <;> rfl
      simp only [hx, Expiring.serve_remove_absent hsame.symm]
      exact ⟨trivial, (h.erase hsame.symm).count htally⟩
    | none =>
      rw [present?_eq_some hentry hx] at hsame
      simp only [hx, Expiring.serve_remove_present hsame.symm]
      refine ⟨trivial, (h.placed.erase k).congr rfl rfl, h.timeToLive, h.timeToIdle, ?_, fun k' => ?_⟩
      · rw [← h.tally]
        rfl
      · rw [Expiring.present?_erase, ← h.present?]
        exact present?_erase c now k k'

theorem get (h : Resembles now c m) (k : K) :
    MapReply.value (c.get now k).answer = (m.serve now (.get k)).1 ∧
      Resembles now (c.get now k).cache (m.serve now (.get k)).2 := by
  have hsame := h.present? k
  have hmiss : ∀ metrics : Metrics, metrics.tally = c.metrics.tally →
      metrics.miss.tally = { m.tally with misses := m.tally.misses + 1 } := by
    intro metrics heq
    rw [← h.tally, ← heq]
    rfl
  unfold Volatile.get
  cases hentry : c.stored? k with
  | none =>
    rw [present?_eq_none hentry] at hsame
    rw [Expiring.serve_get_absent hsame.symm]
    exact ⟨rfl, h.count (hmiss _ rfl)⟩
  | some e =>
    cases hx : c.expiration now e with
    | some x =>
      rw [present?_eq_none_of_expiration hentry hx] at hsame
      have htally : (c.metrics.expired x).tally = c.metrics.tally := by
        cases x <;> rfl
      simp only [hx, Expiring.serve_get_absent hsame.symm]
      exact ⟨trivial, (h.erase hsame.symm).count (hmiss _ htally)⟩
    | none =>
      have hpresent := present?_eq_some hentry hx
      rw [hpresent] at hsame
      have hhit : (if c.timeToIdle.isSome then c.store k { e with stamps := e.stamps.touch now }
          else c).metrics.hit.tally = { m.tally with hits := m.tally.hits + 1 } := by
        rw [← h.tally]
        split <;> rfl
      simp only [hx, Expiring.serve_get_present hsame.symm]
      exact ⟨trivial, h.touch hpresent hhit⟩

theorem keys_perm (h : Resembles now c m) : (c.keys now).Perm (m.keys now) := by
  rw [List.perm_ext_iff_of_nodup (h.placed.nodup_keys now) (m.nodup_keys now)]
  intro k
  rw [h.placed.mem_keys, m.mem_keys, h.present?]

theorem serve (h : Resembles now c m) (r : MapRequest K (Shared V)) :
    (c.serve now r).1.Agrees (m.serve now r).1 ∧ Resembles now (c.serve now r).2 (m.serve now r).2 := by
  have hcontains : ∀ k, c.contains now k = (m.present? now k).isSome := by
    intro k
    rw [contains_eq_isSome, h.present?]
  cases r with
  | insert k value => exact ⟨rfl, h.insert k value⟩
  | remove k => exact h.remove k
  | get k => exact h.get k
  | contains k => exact ⟨congrArg MapReply.truth (hcontains k), h⟩
  | keys => exact ⟨h.keys_perm, h⟩
  | size => exact ⟨congrArg MapReply.count h.keys_perm.length_eq, h⟩

theorem run (h : Resembles now c m) (turns : List (MapTurn K (Shared V))) :
    List.Forall₂ MapReply.Agrees (c.run now turns).replies (m.run now turns).replies ∧
      (c.run now turns).cache.metrics.tally = (m.run now turns).map.tally := by
  induction turns generalizing now c m with
  | nil => exact ⟨.nil, h.tally⟩
  | cons turn turns ih =>
    cases turn with
    | wait time => exact ih (h.wait time)
    | request r =>
      obtain ⟨hagrees, hafter⟩ := h.serve r
      obtain ⟨hreplies, htally⟩ := ih hafter
      exact ⟨.cons hagrees hreplies, htally⟩
    | purgeExpired => exact ih (h.forget (c.purgeExpired_forgets now))
    | close => exact ih h.close

end Resembles

theorem resembles_make (name : String) {count : Nat} (hcount : 0 < count) (hash : K → UInt64)
    (timeToLive timeToIdle : Option Duration) (generator : Weyl) (now : Nat) :
    Resembles now
      ({ make name count hash timeToLive timeToIdle now with generator } : Volatile K V)
      (.empty timeToLive timeToIdle) := by
  have hplaced := placed_make (V := V) name hcount hash timeToLive timeToIdle now
  refine ⟨hplaced.congr rfl rfl, rfl, rfl, rfl, fun k => ?_⟩
  refine present?_eq_none ?_
  show ((make name count hash timeToLive timeToIdle now : Volatile K V).shard _).get? k = none
  rw [shard_make, Table.get?_empty]

omit [DecidableEq K] in
theorem agree_of_common {replies replies' plain : List (MapReply K (Shared V))}
    (h : List.Forall₂ MapReply.Agrees replies plain)
    (h' : List.Forall₂ MapReply.Agrees replies' plain) :
    List.Forall₂ MapReply.Agrees replies replies' := by
  induction h generalizing replies' with
  | nil =>
    cases h'
    exact .nil
  | cons hagrees _ ih =>
    cases h' with
    | cons hagrees' hrest' => exact .cons (hagrees.trans hagrees'.symm) (ih hrest')

/-- A cache of shards is one map in which nothing is ever swept: it replies to any turns as that map
does and counts the same. So it makes no difference into how many shards it is split, which hash
spreads the keys over them and where its generator starts. -/
theorem one_plain_map (name : String) (bits : Nat) (hash : K → UInt64) (generator : Weyl)
    (timeToLive timeToIdle : Option Duration) (start : Nat) (turns : List (MapTurn K (Shared V))) :
    let cache (bits : Nat) (hash : K → UInt64) (generator : Weyl) : Volatile K V :=
      { make name (2 ^ bits) hash timeToLive timeToIdle start with generator }
    let ran := (cache bits hash generator).run start turns
    let plain := (Expiring.empty timeToLive timeToIdle).run start turns
    (List.Forall₂ MapReply.Agrees ran.replies plain.replies ∧
      ran.cache.metrics.tally = plain.map.tally) ∧
    ∀ (bits' : Nat) (hash' : K → UInt64) (generator' : Weyl),
      let other := (cache bits' hash' generator').run start turns
      List.Forall₂ MapReply.Agrees ran.replies other.replies ∧
        ran.cache.metrics.tally = other.cache.metrics.tally := by
  intro cache ran plain
  have hplain : ∀ bits hash generator,
      List.Forall₂ MapReply.Agrees ((cache bits hash generator).run start turns).replies
          plain.replies ∧
        ((cache bits hash generator).run start turns).cache.metrics.tally = plain.map.tally :=
    fun bits hash generator =>
      (resembles_make name (Nat.two_pow_pos bits) hash timeToLive timeToIdle generator start).run turns
  refine ⟨hplain bits hash generator, fun bits' hash' generator' => ?_⟩
  obtain ⟨hreplies, htally⟩ := hplain bits hash generator
  obtain ⟨hreplies', htally'⟩ := hplain bits' hash' generator'
  exact ⟨agree_of_common hreplies hreplies', htally.trans htally'.symm⟩

end Volatile

end CacheLayer
