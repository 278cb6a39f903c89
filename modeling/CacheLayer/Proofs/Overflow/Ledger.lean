import CacheLayer.Proofs.Overflow.Account

/-!
# The ledger of a two-tier cache

Every value that is stored in a run is, in the end, in one place: it lies in memory or on disk, or
it left once. What left was told and counted, gave way to another value under its key, or could not be
read back from disk.

* `Sound.perform_count`, `Sound.run_count` : the ledger of one key, for an operation and for a run.
* `Sound.run_counted` : what is stored and what is told is what is counted.
* `ledger_run` : the balance of the counters, and the keys stored as a permutation of the keys that
  are held, were told of, were replaced or were lost.
-/

namespace CacheLayer.Overflow

variable {K : Type u} {V : Type v} [DecidableEq K]

/-! ## One operation -/

def held (c : Overflow K V) : List K := c.entries.keys ++ c.diskKeys

theorem Tidy.nodup_held {c : Overflow K V} (h : c.Tidy) : c.held.Nodup := by
  refine List.nodup_append'.2 ⟨c.entries.nodup_keys, c.nodup_diskKeys, ?_⟩
  intro k hmemory hdisk
  rw [Table.mem_keys] at hmemory
  rw [mem_diskKeys, h.apart k hmemory] at hdisk
  cases hdisk

theorem Tidy.count_held {c : Overflow K V} (h : c.Tidy) (k : K) :
    c.held.count k = standings c.standing? k := by
  have hmem : k ∈ c.held ↔ (c.standing? k).isSome = true := by
    rw [isSome_standing?, Bool.or_eq_true, held, List.mem_append, Table.mem_keys, mem_diskKeys]
    rfl
  rw [h.nodup_held.count, standings]
  simp only [hmem]

omit [DecidableEq K] in
theorem length_held (c : Overflow K V) : c.held.length = c.memorySize + c.diskSize := by
  unfold held Overflow.diskKeys memorySize diskSize
  rw [List.length_append, Table.length_keys]
  cases c.disk with
  | none => rfl
  | some t => rw [Table.length_keys]; rfl

/-- What has left a cache by the counters. -/
def departed (m : Metrics) : Nat :=
  m.removals + m.evictedByCapacity + m.evictedByTtl + m.evictedByTti + m.diskWriteFailures

theorem counts_stored (cause : Cause) : cause.counter? = some .inserts ↔ cause = .stored := by
  cases cause with
  | expired x => cases x <;> simp [Cause.counter?]
  | _ => simp [Cause.counter?]

omit [DecidableEq K] in
theorem length_eventsOf (ms : List (Movement K V)) :
    (eventsOf ms).length = counts .removals ms + counts .capacity ms + counts .timeToLive ms +
      counts .timeToIdle ms + counts .writeFailures ms := by
  induction ms with
  | nil => rfl
  | cons m ms ih =>
    rw [eventsOf_cons, List.length_append, ih]
    simp only [counts_cons]
    obtain ⟨key, cause, before, after, value⟩ := m
    cases cause with
    | expired x => cases x <;> simp [Movement.event?, Cause.reason?, Cause.counter?] <;> omega
    | _ => simp [Movement.event?, Cause.reason?, Cause.counter?] <;> omega

theorem Account.inserts_eq {now : Nat} {timeToIdle : Option Duration} {c : Overflow K V}
    {ms : List (Movement K V)} {s : Step (Overflow K V) (Eviction K V) α}
    (h : Account now timeToIdle c ms s) :
    s.state.metrics.inserts = c.metrics.inserts + (keysBy .stored ms).length := by
  rw [length_keysBy counts_stored]
  exact h.counted .inserts

theorem Account.departed_eq {now : Nat} {timeToIdle : Option Duration} {c : Overflow K V}
    {ms : List (Movement K V)} {s : Step (Overflow K V) (Eviction K V) α}
    (h : Account now timeToIdle c ms s) :
    departed s.state.metrics = departed c.metrics + s.log.length := by
  have hremovals := h.counted .removals
  have hcapacity := h.counted .capacity
  have hlive := h.counted .timeToLive
  have hidle := h.counted .timeToIdle
  have hfailures := h.counted .writeFailures
  rw [h.log_eq, length_eventsOf]
  unfold departed
  simp only [Counter.reading] at hremovals hcapacity hlive hidle hfailures
  omega

theorem Sound.perform_count {c : Overflow K V} (hc : c.Sound) (w : World) {op : Op K V}
    (hopen : op ≠ .close) (k : K) :
    (c.perform w op).state.held.count k + ((c.perform w op).log.map Eviction.key).count k +
        (op.replaced c).count k + (op.lost c w).count k =
      c.held.count k + op.stored.count k := by
  obtain ⟨ms, haccount, hms⟩ := hc.perform_account w op
  have hclosed : op.closed c = [] := by
    cases op with
    | close => exact absurd rfl hopen
    | _ => rfl
  have hcount := haccount.traffic.count k
  rw [hms.stored, hms.replaced, hms.lost, hms.closed, hclosed, ← haccount.log_eq] at hcount
  rw [hc.count_held, (hc.perform w op).count_held]
  exact hcount

/-! ## A run -/

def gather (f : Overflow K V → World → Op K V → List α) (c : Overflow K V) (w : World) :
    List (Turn K V) → List α
  | [] => []
  | turn :: turns =>
    let w := w.advance turn.wait
    f c w turn.op ++ gather f (c.perform w turn.op).state (c.perform w turn.op).world turns

def storedKeys (turns : List (Turn K V)) : List K := turns.flatMap fun turn => turn.op.stored

/-- The keys that a run stores under while a tier holds them. -/
def replacedKeys (c : Overflow K V) (w : World) (turns : List (Turn K V)) : List K :=
  gather (fun c _ op => op.replaced c) c w turns

/-- The keys that a run looks up on disk and cannot read back. -/
def lostKeys (c : Overflow K V) (w : World) (turns : List (Turn K V)) : List K :=
  gather (fun c w op => op.lost c w) c w turns

def toldKeys (records : List (Record K V)) : List K :=
  records.flatMap fun record => record.events.map Eviction.key

theorem Sound.run_count {c : Overflow K V} {w : World} (hc : c.Sound) (turns : List (Turn K V))
    (hopen : ∀ turn ∈ turns, turn.op ≠ .close) (k : K) :
    (c.run w turns).state.held.count k + (toldKeys (c.run w turns).log).count k +
        (replacedKeys c w turns).count k + (lostKeys c w turns).count k =
      c.held.count k + (storedKeys turns).count k := by
  induction turns generalizing c w with
  | nil => rfl
  | cons turn turns ih =>
    have hfirst := hc.perform_count (w.advance turn.wait) (hopen turn (by simp)) k
    have hrest := ih (hc.perform (w.advance turn.wait) turn.op)
      (w := (c.perform (w.advance turn.wait) turn.op).world)
      fun later hlater => hopen later (by simp [hlater])
    simp only [run, toldKeys, replacedKeys, lostKeys, storedKeys, gather, List.flatMap_cons,
      List.count_append] at hfirst hrest ⊢
    omega

theorem Sound.run_counted {c : Overflow K V} {w : World} (hc : c.Sound) (turns : List (Turn K V)) :
    (c.run w turns).state.metrics.inserts = c.metrics.inserts + (storedKeys turns).length ∧
      departed (c.run w turns).state.metrics =
        departed c.metrics + (toldKeys (c.run w turns).log).length := by
  induction turns generalizing c w with
  | nil => exact ⟨rfl, rfl⟩
  | cons turn turns ih =>
    obtain ⟨ms, haccount, hms⟩ := hc.perform_account (w.advance turn.wait) turn.op
    have hinserts := haccount.inserts_eq
    have hdeparted := haccount.departed_eq
    obtain ⟨hinserts', hdeparted'⟩ := ih (hc.perform (w.advance turn.wait) turn.op)
      (w := (c.perform (w.advance turn.wait) turn.op).world)
    rw [hms.stored] at hinserts
    simp only [run, toldKeys, storedKeys, List.flatMap_cons, List.length_append, List.length_map]
      at hinserts' hdeparted' ⊢
    omega

omit [DecidableEq K] in
theorem Built.held_eq {b : Builder} {st : Storage K V} {w w' : World} {c : Overflow K V}
    (h : Built b st w c w') : c.held = [] := by
  cases h <;> rfl

omit [DecidableEq K] in
theorem Built.metrics_eq {b : Builder} {st : Storage K V} {w w' : World} {c : Overflow K V}
    (h : Built b st w c w') : c.metrics = .startedAt w.now := by
  cases h <;> rfl

/-- As long as a cache that was built is not closed, every value that was stored is accounted for:
whatever is done, whenever, and whatever others do to the file area, the insertions are the entries
of both tiers, those that left for a counted reason, those that were replaced and those that could not
be read back. No key is held twice, and what was stored under each key is held or left once. -/
theorem ledger_run (b : Builder) (st : Storage K V) {w w' : World} {c : Overflow K V}
    (hbuilt : b.buildOverflow st w = (.ok c, w')) (turns : List (Turn K V))
    (hopen : ∀ turn ∈ turns, turn.op ≠ .close) :
    let after := (c.run w' turns).state
    let counted := after.metrics
    counted.inserts = after.memorySize + after.diskSize + counted.removals +
        counted.evictedByCapacity + counted.evictedByTtl + counted.evictedByTti +
        counted.diskWriteFailures + (replacedKeys c w' turns).length +
        (lostKeys c w' turns).length ∧
      after.held.Nodup ∧
      (storedKeys turns).Perm (after.held ++ toldKeys (c.run w' turns).log ++
        replacedKeys c w' turns ++ lostKeys c w' turns) := by
  have hstart := Builder.built hbuilt
  have hperm : (storedKeys turns).Perm ((c.run w' turns).state.held ++
      toldKeys (c.run w' turns).log ++ replacedKeys c w' turns ++ lostKeys c w' turns) := by
    rw [List.perm_iff_count]
    intro k
    have hcount := hstart.sound.run_count (w := w') turns hopen k
    rw [hstart.held_eq, List.count_nil, Nat.zero_add] at hcount
    simp only [List.count_append]
    exact hcount.symm
  refine ⟨?_, (sound_run turns hstart.sound).nodup_held, hperm⟩
  have hlength := hperm.length_eq
  obtain ⟨hinserts, hdeparted⟩ := hstart.sound.run_counted (w := w') turns
  rw [hstart.metrics_eq] at hinserts hdeparted
  simp only [List.length_append, length_held] at hlength
  simp only [departed, Metrics.startedAt] at hinserts hdeparted
  omega

/-- A value is replaced, one is spilled and read back, one is pushed off the disk, one is lost with its
file and one is removed. -/
theorem ledger_run_pair :
    let turns : List (Turn Nat UInt8) :=
      [⟨0, .request (.insert 1 ⟨0, 7⟩)⟩, ⟨0, .request (.insert 1 ⟨1, 8⟩)⟩,
        ⟨0, .request (.insert 2 ⟨2, 9⟩)⟩, ⟨0, .request (.get 1)⟩,
        ⟨0, .request (.insert 3 ⟨3, 7⟩)⟩, ⟨0, .outside fun a => a.deleteTier 0⟩,
        ⟨0, .request (.get 1)⟩, ⟨0, .request (.remove 3)⟩]
    [1, 1, 2, 3].Perm (((pairCache none none).run pairWorld turns).state.held ++
      toldKeys ((pairCache none none).run pairWorld turns).log ++
      replacedKeys (pairCache none none) pairWorld turns ++
      lostKeys (pairCache none none) pairWorld turns) := by
  intro turns
  exact (ledger_run (pairBuilder none none) byteStorage (pair_built none none) turns
    (by simp [turns])).2.2

end CacheLayer.Overflow
