import CacheLayer.Proofs.Overflow.Course
import CacheLayer.Proofs.Overflow.SingleList

/-!
# The tiers list their keys by last use

The record of a run tells when each key was used last: when a value was stored under it, or found.
Whatever the bounds and the timeouts, and whatever others do to the file area, the recency list of the
memory tier followed by the one of the disk tier lists the resident keys in the order of their last
use, and an operation moves keys as a `TierKeys.Course` does: who makes room was used longest ago.

* `lastUse` : the number of the last operation that used a key.
* `Sinks.course` : entries that leave unasked leave in the course of the operation.
* `Sound.perform_moves` : an operation brings the key that it uses to the front, and then takes its
  course.
* `run_byUse` : so the lists are in order after every run.
-/

namespace CacheLayer.Overflow

variable {K : Type u} {V : Type v} [DecidableEq K]

/-! ## The last use of a key -/

/-- The key that an operation used: it stored a value under that key, or it found one there. -/
def Record.used? (r : Record K V) : Option K :=
  match r.op, r.reply with
  | .request (.insert k _), _ => some k
  | .request (.get k), .value (some _) => some k
  | _, _ => none

/-- The number of the last operation that used `k`, counted from one; zero if none did. -/
def lastUse (log : List (Record K V)) (k : K) : Nat :=
  log.length - log.reverse.findIdx fun r => decide (r.used? = some k)

theorem lastUse_append (log : List (Record K V)) (r : Record K V) (k : K) :
    lastUse (log ++ [r]) k = if r.used? = some k then log.length + 1 else lastUse log k := by
  unfold lastUse
  rw [List.reverse_append, List.length_append]
  by_cases hused : r.used? = some k
  · simp [List.findIdx_cons, hused]
  · simp [List.findIdx_cons, hused]

theorem lastUse_le (log : List (Record K V)) (k : K) : lastUse log k ≤ log.length :=
  Nat.sub_le _ _

theorem byUse_bring {l : TierKeys K} {log : List (Record K V)} (h : l.ByUse (lastUse log))
    (r : Record K V) : (l.bring r.used?).ByUse (lastUse (log ++ [r])) :=
  h.bring (fun k => Nat.lt_succ_of_le (lastUse_le log k)) (lastUse_append log r)

/-! ## The keys of the tiers -/

def tierKeys (c : Overflow K V) : TierKeys K := ⟨c.order.keys, c.diskOrder⟩

theorem Tidy.mem_tierKeys {c : Overflow K V} (h : c.Tidy) (k : K) :
    k ∈ c.tierKeys.all ↔ (c.inMemory k || c.onDisk k) = true := by
  show k ∈ c.order.keys ++ c.diskOrder ↔ _
  rw [List.mem_append, h.mem_order, h.mem_diskOrder, Bool.or_eq_true]

theorem Tidy.mem_tierKeys_of_get? {c : Overflow K V} (h : c.Tidy) {k : K} {e : Entry V}
    (hget : c.entries.get? k = some e) : k ∈ c.tierKeys.all := by
  rw [h.mem_tierKeys, inMemory_of_get? hget]
  rfl

theorem Tidy.mem_tierKeys_disk {c : Overflow K V} (h : c.Tidy) {k : K} (hk : c.onDisk k = true) :
    k ∈ c.tierKeys.disk := (h.mem_diskOrder k).2 hk

theorem tierKeys_dropBoth (c : Overflow K V) (k : K) :
    ((c.dropMemory k).dropDisk k).tierKeys = c.tierKeys.without k :=
  TierKeys.ext (Recency.keys_remove c.order k) (diskOrder_dropDisk (c.dropMemory k) k)

theorem Tidy.tierKeys_dropMemory {c : Overflow K V} (h : c.Tidy) {k : K}
    (hk : c.onDisk k = false) : (c.dropMemory k).tierKeys = c.tierKeys.without k := by
  have hboth := tierKeys_dropBoth c k
  rwa [(h.dropMemory k).dropDisk_eq_self hk] at hboth

theorem Tidy.tierKeys_dropDisk {c : Overflow K V} (h : c.Tidy) {k : K}
    (hk : c.inMemory k = false) : (c.dropDisk k).tierKeys = c.tierKeys.without k := by
  have hboth := tierKeys_dropBoth c k
  rwa [h.dropMemory_eq_self hk] at hboth

theorem tierKeys_atFront (c : Overflow K V) (k : K) (e : Entry V) :
    (((c.dropMemory k).dropDisk k).atFront k e).tierKeys = c.tierKeys.toFront k := by
  have hmemory : ((c.order.remove k).pushFront k e.weight).keys =
      k :: c.order.keys.filter fun k' => decide (k' ≠ k) := by
    rw [Recency.pushFront_remove, Recency.keys_pushFront]
  exact TierKeys.ext hmemory (diskOrder_dropDisk (c.dropMemory k) k)

/-! ## Entries that leave unasked -/

section

variable {persistence : Persistence} {lastUsed : K → Nat}

/-- Where nothing is persistent there is no disk tier. -/
def ObeysPersistence (persistence : Persistence) (c : Overflow K V) : Prop :=
  persistence = .none → c.disk = none

omit [DecidableEq K] in
theorem ObeysPersistence.sameSetup {c c' : Overflow K V} (h : c.ObeysPersistence persistence)
    (hsame : SameSetup c c') : c'.ObeysPersistence persistence := by
  intro hpersistence
  have hbound := hsame.bound
  rw [h hpersistence] at hbound
  exact Option.map_eq_none_iff.1 hbound

theorem course_drop {c : Overflow K V} {k : K} (hpersistence : c.ObeysPersistence persistence)
    (hby : (⟨c.order.keys ++ [k], c.diskOrder⟩ : TierKeys K).ByUse lastUsed) :
    TierKeys.Course persistence lastUsed ⟨c.order.keys ++ [k], c.diskOrder⟩ [(k, .overflow)]
      ⟨c.order.keys, c.diskOrder⟩ := by
  have hleast := hby.least_memory
  refine .drop hleast (fun hnone => ?_) (.ended _)
  rw [diskOrder_of_none (hpersistence hnone), List.append_nil]
  exact hleast

theorem Vacant.spilled_course {c : Overflow K V} {w : World} {k : K} {e : Entry V}
    {s : Step (Overflow K V) (Eviction K V) Unit} (h : c.Vacant k) (hs : Spilled c w k e s)
    (hpersistence : c.ObeysPersistence persistence)
    (hby : (⟨c.order.keys ++ [k], c.diskOrder⟩ : TierKeys K).ByUse lastUsed) :
    TierKeys.Course persistence lastUsed ⟨c.order.keys ++ [k], c.diskOrder⟩
      (TierKeys.departures s.log) ⟨c.order.keys, s.state.diskOrder⟩ := by
  have hmemory : k ∉ c.order.keys := by
    rw [h.mem_order, h.notInMemory]
    exact Bool.false_ne_true
  have hdisk : k ∉ c.diskOrder := by
    rw [h.mem_diskOrder, h.notOnDisk]
    exact Bool.false_ne_true
  cases hs with
  | expired x hx =>
    have hwithout : (⟨c.order.keys ++ [k], c.diskOrder⟩ : TierKeys K).without k =
        ⟨c.order.keys, c.diskOrder⟩ := by
      refine TierKeys.ext ?_ (Recency.filter_ne_of_not_mem hdisk)
      show (c.order.keys ++ [k]).filter _ = _
      rw [List.filter_append, Recency.filter_ne_of_not_mem hmemory]
      simp
    exact .leave (by simp [TierKeys.all]) (.inl rfl) (hwithout ▸ .ended _)
  | dropped hlive hnone => exact course_drop hpersistence hby
  | unencodable hlive t ht fault hencode => exact course_drop hpersistence hby
  | refused hlive t ht bytes hencode haccepts =>
    have hsame : (t.order.remove k).keys = c.diskOrder := by
      rw [Recency.keys_remove, ← diskOrder_of_disk ht, Recency.filter_ne_of_not_mem hdisk]
    show TierKeys.Course _ _ _ _ ⟨c.order.keys, (t.order.remove k).keys⟩
    rw [hsame]
    exact course_drop hpersistence hby
  | written hlive t ht bytes hencode haccepts =>
    -- what stays on disk and what is pushed off it are the old order behind `k`, cut in two
    have hlisted : (t.listed k bytes.length).1.keys ++ (t.listed k bytes.length).2.reverse =
        k :: c.diskOrder := by
      have htrim := Recency.trim_keys t.bound.exceededBy (t.order.pushFront k bytes.length).size _
        ((h.disk t ht).order.pushFront k bytes.length)
      rw [diskOrder_of_disk ht] at hdisk ⊢
      rw [Recency.keys_pushFront_of_not_mem hdisk] at htrim
      exact htrim
    have hpushed : TierKeys.Course persistence lastUsed ⟨c.order.keys, k :: c.diskOrder⟩
        ((t.listed k bytes.length).2.map fun victim => (victim, .capacity))
        ⟨c.order.keys, (t.listed k bytes.length).1.keys⟩ := by
      have hspilled := hby.spill
      rw [← hlisted] at hspilled ⊢
      exact .pushOffAll _ hspilled
    refine .spill hby.least_memory ?_
    unfold TierKeys.departures
    rw [List.map_map]
    exact hpushed

theorem Sink.course {c : Overflow K V} {w : World}
    {s : Step (Overflow K V) (Eviction K V) Unit} (hs : Sink c w s) (h : c.Sound)
    (hpersistence : c.ObeysPersistence persistence) (hby : c.tierKeys.ByUse lastUsed) :
    TierKeys.Course persistence lastUsed c.tierKeys (TierKeys.departures s.log)
      s.state.tierKeys := by
  cases hs with
  | @evict k weight rest e hpop hget =>
    obtain ⟨rfl, -, hkeys⟩ := h.order.popBack_eq hpop
    have hvacant := h.dropMemory (h.not_onDisk hget)
    have hlists : c.tierKeys = ⟨(c.order.remove k).keys ++ [k], c.diskOrder⟩ :=
      TierKeys.ext hkeys rfl
    have hafter : ((c.dropMemory k).spill w k e).state.tierKeys =
        ⟨(c.order.remove k).keys, ((c.dropMemory k).spill w k e).state.diskOrder⟩ :=
      TierKeys.ext (congrArg Recency.keys (spill_state_order (c.dropMemory k) w k e)) rfl
    rw [hlists] at hby ⊢
    rw [hafter]
    exact hvacant.spilled_course (hvacant.toTidy.spilled w k e) hpersistence hby
  | @expireMemory k e x hget hx =>
    have hafter := h.tierKeys_dropMemory (h.not_onDisk hget)
    rw [Overflow.expireMemory, hget]
    exact .leave (h.mem_tierKeys_of_get? hget) (.inl rfl) (hafter ▸ .ended _)
  | @expireDisk t k x hdisk hx =>
    have hon : c.onDisk k = true := by
      rw [onDisk_of_disk hdisk]
      exact contains_of_expiration hx
    have hafter := h.tierKeys_dropDisk (not_inMemory_of_onDisk h.toTidy hon)
    have hlisted := List.mem_append_right c.order.keys (h.mem_tierKeys_disk hon)
    rw [dropDisk_eq hdisk] at hafter
    refine .leave hlisted (.inl rfl) ?_
    simp only [Overflow.expireDisk, (h.disk t hdisk).remove_tier]
    exact hafter ▸ .ended _
  | @lose t k taken hdisk hlive htake hlost =>
    have hon := (onDisk_of_disk hdisk k).trans (DiskTier.contains_of_take htake)
    have hafter := h.tierKeys_dropDisk (not_inMemory_of_onDisk h.toTidy hon)
    rw [dropDisk_eq hdisk, ← DiskTier.take_tier htake] at hafter
    exact .lose (h.mem_tierKeys_disk hon) (hafter ▸ .ended _)

theorem Sinks.course {c : Overflow K V} {w : World}
    {s : Step (Overflow K V) (Eviction K V) Unit} (hs : Sinks c w s) (h : c.Sound)
    (hpersistence : c.ObeysPersistence persistence) (hby : c.tierKeys.ByUse lastUsed) :
    TierKeys.Course persistence lastUsed c.tierKeys (TierKeys.departures s.log)
      s.state.tierKeys := by
  induction hs with
  | refl c w => exact .ended _
  | @step c w s s' hs _ ih =>
    have hfirst : TierKeys.Course persistence lastUsed c.tierKeys
        (TierKeys.departures s.log) s.state.tierKeys := hs.course h hpersistence hby
    have hlater := ih (hs.sound h) (hpersistence.sameSetup (hs.sameSetup h)) (hfirst.byUse hby)
    show TierKeys.Course persistence lastUsed _ (TierKeys.departures (s.log ++ s'.log)) _
    rw [TierKeys.departures_append]
    exact hfirst.trans hlater

end

/-! ## The operations -/

variable {persistence : Persistence} {lastUsed : K → Nat}

theorem Sound.insert_course {c : Overflow K V} (h : c.Sound) (w : World) (k : K)
    (value : Shared V) (hpersistence : c.ObeysPersistence persistence)
    (hby : (c.tierKeys.toFront k).ByUse lastUsed) :
    TierKeys.Course persistence lastUsed (c.tierKeys.toFront k)
      (TierKeys.departures (c.insert w k value).log) (c.insert w k value).state.tierKeys := by
  have hfront := (h.dropBoth k).atFront (c.freshEntry w value)
  have hlists := tierKeys_atFront c k (c.freshEntry w value)
  have hcleared : (((c.dropMemory k).dropDisk k).atFront k
      (c.freshEntry w value)).ObeysPersistence persistence := fun hnone => by
    show c.disk.map _ = none
    rw [hpersistence hnone]
    rfl
  rw [h.insert_eq]
  rw [← hlists] at hby ⊢
  exact (takeIn_sinks hfront (c.clearedWorld w k)).course hfront hcleared hby

theorem Found.course {c : Overflow K V} {w : World} {k : K}
    {s : Step (Overflow K V) (Eviction K V) (Option (Shared V))} (hs : Found c w k s)
    {used : Option K} (h : c.Sound) (hpersistence : c.ObeysPersistence persistence)
    (hused : used = s.answer.map fun _ => k) (hby : (c.tierKeys.bring used).ByUse lastUsed) :
    TierKeys.Course persistence lastUsed (c.tierKeys.bring used) (TierKeys.departures s.log)
      s.state.tierKeys := by
  subst hused
  cases hs with
  | absent hmemory hdisk => exact .ended _
  | gone hs => exact hs.sink.course h hpersistence hby
  | @hit e hget hlive =>
    have hlisted : k ∈ c.order.keys := (h.mem_order k).2 (inMemory_of_get? hget)
    have hdisk : k ∉ c.diskOrder := by
      rw [h.mem_diskOrder, h.not_onDisk hget]
      exact Bool.false_ne_true
    have hfront : (⟨(c.order.moveToFront k).keys, c.diskOrder⟩ : TierKeys K) =
        c.tierKeys.toFront k :=
      TierKeys.ext (Recency.keys_moveToFront hlisted) (Recency.filter_ne_of_not_mem hdisk).symm
    show TierKeys.Course _ _ (c.tierKeys.toFront k) [] ⟨(c.order.moveToFront k).keys, c.diskOrder⟩
    rw [hfront]
    exact .ended _
  | @promoted t bytes stamps v hmemory hdisk hstamps hlive hcontent hread =>
    have hfront := (lifted_vacant h hmemory hdisk).atFront
      ⟨⟨w.nextId, v⟩, c.weigh v, c.touched w stamps⟩
    have hlists : ((c.lifted t k).atFront k
        ⟨⟨w.nextId, v⟩, c.weigh v, c.touched w stamps⟩).tierKeys = c.tierKeys.toFront k := by
      have hboth := tierKeys_atFront c k ⟨⟨w.nextId, v⟩, c.weigh v, c.touched w stamps⟩
      rw [h.dropMemory_eq_self (not_inMemory_of_get? hmemory), dropDisk_eq hdisk] at hboth
      exact hboth
    have hopen : (c.lifted t k).ObeysPersistence persistence := fun hnone => by
      rw [hpersistence hnone] at hdisk
      cases hdisk
    have hby : (c.tierKeys.toFront k).ByUse lastUsed := hby
    show TierKeys.Course _ _ (c.tierKeys.toFront k) _ _
    rw [← hlists] at hby ⊢
    exact (takeIn_sinks hfront _).course hfront hopen hby

theorem Removed.course {c : Overflow K V} {w : World} {k : K}
    {s : Step (Overflow K V) (Eviction K V) Bool} (hs : Removed c w k s) (h : c.Sound) :
    TierKeys.Course persistence lastUsed c.tierKeys (TierKeys.departures s.log)
      s.state.tierKeys := by
  have hafter : s.state.tierKeys = c.tierKeys.without k := by
    rw [(hs.state_eq h).1]
    exact tierKeys_dropBoth c k
  cases hs with
  | absent hmemory hdisk => exact .ended _
  | expired hget hx => exact .leave (h.mem_tierKeys_of_get? hget) (.inl rfl) (hafter ▸ .ended _)
  | fromMemory hget hlive =>
    exact .leave (h.mem_tierKeys_of_get? hget) (.inr rfl) (hafter ▸ .ended _)
  | @fromDisk t hmemory hdisk hcontains =>
    have hon : c.onDisk k = true := (onDisk_of_disk hdisk k).trans hcontains
    have hlisted := List.mem_append_right c.order.keys (h.mem_tierKeys_disk hon)
    exact .leave hlisted (.inr rfl) (hafter ▸ .ended _)

omit [DecidableEq K] in
theorem close_empties (c : Overflow K V) (w : World) :
    (c.close w).log = [] ∧ (c.close w).state.tierKeys = ⟨[], []⟩ := by
  obtain ⟨settings, entries, order, disk, keyIndex, metrics⟩ := c
  cases disk <;> exact ⟨rfl, rfl⟩

/-- How an operation, recorded as `r` after `log`, moves the keys: the key that it uses comes to the
front, and then keys move down. -/
def Moves (persistence : Persistence) (log : List (Record K V)) (r : Record K V)
    (before after : TierKeys K) : Prop :=
  match r.op with
  | .close => r.events = [] ∧ after = ⟨[], []⟩
  | _ => TierKeys.Course persistence (lastUse (log ++ [r])) (before.bring r.used?)
      (TierKeys.departures r.events) after

theorem Moves.byUse {log : List (Record K V)} {r : Record K V} {before after : TierKeys K}
    (h : Moves persistence log r before after) (hby : before.ByUse (lastUse log)) :
    after.ByUse (lastUse (log ++ [r])) := by
  have hused := byUse_bring hby r
  unfold Moves at h
  split at h
  · rw [h.2]
    exact ⟨nofun, .nil⟩
  · exact h.byUse hused

theorem Sound.perform_moves {c : Overflow K V} {log : List (Record K V)} (h : c.Sound) (w : World)
    (op : Op K V) (hpersistence : c.ObeysPersistence persistence)
    (hby : c.tierKeys.ByUse (lastUse log)) :
    Moves persistence log ⟨w.now, op, (c.perform w op).answer, (c.perform w op).log⟩ c.tierKeys
      (c.perform w op).state.tierKeys := by
  have hused := byUse_bring hby ⟨w.now, op, (c.perform w op).answer, (c.perform w op).log⟩
  have hpurges := purgeExpired_sinks h w
  cases op with
  | request request =>
    cases request with
    | insert k value => exact h.insert_course w k value hpersistence hused
    | remove k => exact (h.removed w k).course h
    | get k =>
      refine (find_found c w k).course h hpersistence ?_ hused
      show Record.used? ⟨_, .request (.get k), .value (c.find w k).answer, _⟩ = _
      cases (c.find w k).answer <;> rfl
    | contains k => exact .ended _
    | keys => exact hpurges.course h hpersistence hused
    | size => exact hpurges.course h hpersistence hused
  | purgeExpired => exact hpurges.course h hpersistence hused
  | close => exact close_empties c w
  | outside change => exact .ended _

/-! ## Runs -/

omit [DecidableEq K] in
theorem Built.obeysPersistence {b : Builder} {st : Storage K V} {w w' : World} {c : Overflow K V}
    (h : Built b st w c w') : c.ObeysPersistence b.config.persistence := by
  cases h with
  | memoryOnly hpersistence => exact fun _ => rfl
  | overDisk hpersistence hplace hunwritable =>
    intro hnone
    rw [hpersistence] at hnone
    cases hnone

omit [DecidableEq K] in
theorem Built.tierKeys_eq {b : Builder} {st : Storage K V} {w w' : World} {c : Overflow K V}
    (h : Built b st w c w') : c.tierKeys = ⟨[], []⟩ := by
  cases h with
  | memoryOnly hpersistence => rfl
  | overDisk hpersistence hplace hunwritable => rfl

/-- After every run of a cache that was built, whatever others do to the file area, the list of the
memory tier followed by the one of the disk tier has the resident keys in strictly decreasing order of
their last use; and whatever is done next moves the keys as `Moves` tells, so that a key that makes
room is the least recently used one. -/
theorem run_byUse (b : Builder) (st : Storage K V) {w w' : World} {c : Overflow K V}
    (hbuilt : b.buildOverflow st w = (.ok c, w')) (turns : List (Turn K V)) :
    let s := c.run w' turns
    s.state.tierKeys.ByUse (lastUse s.log) ∧
      (∀ k, k ∈ s.state.tierKeys.all ↔ (s.state.inMemory k || s.state.onDisk k) = true) ∧
      ∀ turn : Turn K V,
        let w := s.world.advance turn.wait
        let next := s.state.perform w turn.op
        Moves b.config.persistence s.log ⟨w.now, turn.op, next.answer, next.log⟩
          s.state.tierKeys next.state.tierKeys := by
  have hstart := Builder.built hbuilt
  have hby : c.tierKeys.ByUse (lastUse ([] : List (Record K V))) := by
    rw [hstart.tierKeys_eq]
    exact ⟨nofun, .nil⟩
  have hsound := sound_run (w := w') turns hstart.sound
  obtain ⟨hafter, hpersistence⟩ := run_keeps
    (P := fun c _ log => c.tierKeys.ByUse (lastUse log) ∧
      c.ObeysPersistence b.config.persistence) (Q := fun _ => True)
    (fun c w log op hc _ h => ⟨(hc.perform_moves w op h.2 h.1).byUse h.1,
      h.2.sameSetup (hc.sameSetup_perform w op)⟩)
    (fun _ _ _ _ h => h) turns (fun _ _ => trivial) [] hstart.sound
    ⟨hby, hstart.obeysPersistence⟩
  refine ⟨hafter, fun k => hsound.mem_tierKeys k, fun turn => ?_⟩
  exact hsound.perform_moves _ turn.op hpersistence hafter

/-- An entry is spilled, another is pushed off the disk, and one is read back. -/
theorem run_byUse_pair : (pairBuilder none none).buildOverflow byteStorage bareWorld =
      (.ok (pairCache none none), pairWorld) ∧
    let s := (pairCache none none).run pairWorld
      [⟨0, .request (.insert 1 ⟨0, 7⟩)⟩, ⟨0, .request (.insert 2 ⟨1, 8⟩)⟩,
        ⟨0, .request (.insert 3 ⟨2, 9⟩)⟩, ⟨0, .request (.get 2)⟩]
    s.state.tierKeys.ByUse (lastUse s.log) ∧
      (∀ k, k ∈ s.state.tierKeys.all ↔ (s.state.inMemory k || s.state.onDisk k) = true) ∧
      ∀ turn : Turn Nat UInt8,
        let w := s.world.advance turn.wait
        let next := s.state.perform w turn.op
        Moves .swapOnOverflow s.log ⟨w.now, turn.op, next.answer, next.log⟩
          s.state.tierKeys next.state.tierKeys :=
  ⟨pair_built none none, run_byUse (pairBuilder none none) byteStorage (pair_built none none) _⟩

end CacheLayer.Overflow
