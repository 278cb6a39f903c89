import CacheLayer.Proofs.Overflow.Removal

/-!
# The traffic of entries

`Overflow.standing?` says which tier holds a key, and the stamps of its entry. An operation moves
entries one after the other: each `Movement` takes one key from one standing to another, for one
`Cause`, and `Passage` says which standings a cause goes with. `Traffic` puts movements in a row.

* `Cause.reason?`, `Cause.counter?` : what the listener is told and what is counted, which for some
  causes is nothing.
* `Traffic.count` : how often a key stands in the cache follows from the movements.
* `Traffic.live_before` : what was not stored lives afterwards only if it lived before.
-/

namespace CacheLayer

/-! ## Standings -/

inductive Tier where
  | memory
  | disk
  deriving DecidableEq, Repr

/-- The tier of an entry, and its stamps. -/
structure Standing where
  tier : Tier
  stamps : Timestamps
  deriving DecidableEq, Repr

theorem DiskTier.Sound.nodup_pushed {K : Type u} [DecidableEq K] {t : DiskTier K} (ht : t.Sound)
    (k : K) (bytes : Nat) :
    (t.listed k bytes).2.Nodup := by
  have hkeys := Recency.trim_keys t.bound.exceededBy (t.order.pushFront k bytes).size _
    (ht.order.pushFront k bytes)
  have hnodup := (ht.order.pushFront k bytes).nodup_keys
  rw [← hkeys] at hnodup
  exact List.nodup_reverse.1 (List.nodup_append.1 hnodup).2.1

namespace Overflow

variable {K : Type u} {V : Type v} [DecidableEq K]

def standing? (c : Overflow K V) (k : K) : Option Standing :=
  match c.entries.get? k with
  | some e => some ⟨.memory, e.stamps⟩
  | none => (c.disk.bind fun t => t.stamps? k).map fun stamps => ⟨.disk, stamps⟩

theorem standing?_of_get? {c : Overflow K V} {k : K} {e : Entry V} (h : c.entries.get? k = some e) :
    c.standing? k = some ⟨.memory, e.stamps⟩ := by
  rw [standing?, h]

theorem standing?_of_get?_eq_none {c : Overflow K V} {k : K} (h : c.entries.get? k = none) :
    c.standing? k = (c.disk.bind fun t => t.stamps? k).map fun stamps => ⟨.disk, stamps⟩ := by
  rw [standing?, h]

theorem standing?_of_stamps? {c : Overflow K V} {k : K} {t : DiskTier K} {stamps : Timestamps}
    (hmemory : c.entries.get? k = none) (hdisk : c.disk = some t)
    (hstamps : t.stamps? k = some stamps) : c.standing? k = some ⟨.disk, stamps⟩ := by
  rw [standing?_of_get?_eq_none hmemory, hdisk, Option.bind_some, hstamps]
  rfl

theorem stamps?_eq (c : Overflow K V) (k : K) :
    c.stamps? k = (c.standing? k).map Standing.stamps := by
  unfold stamps? standing?
  cases c.entries.get? k with
  | some e => rfl
  | none => simp [Function.comp_def]

theorem isSome_standing? (c : Overflow K V) (k : K) :
    (c.standing? k).isSome = (c.inMemory k || c.onDisk k) := by
  rw [← isSome_stamps?, stamps?_eq, Option.isSome_map]

theorem standing?_congr {c c' : Overflow K V} (hentries : c'.entries = c.entries)
    (hdisk : c'.disk = c.disk) : c'.standing? = c.standing? := by
  unfold standing?
  rw [hentries, hdisk]

theorem standing?_eq_update {c c' : Overflow K V} {k : K} {s : Option Standing}
    (hk : c'.standing? k = s)
    (hmemory : ∀ k', k' ≠ k → c'.entries.get? k' = c.entries.get? k')
    (hdisk : ∀ k', k' ≠ k → (c'.disk.bind fun t => t.stamps? k') = c.disk.bind fun t => t.stamps? k') :
    c'.standing? = Function.update c.standing? k s := by
  funext k'
  by_cases heq : k' = k
  · rw [heq, hk, Function.update_self]
  · rw [Function.update_of_ne heq]
    unfold standing?
    rw [hmemory k' heq, hdisk k' heq]

theorem standing?_atFront (c : Overflow K V) (k : K) (e : Entry V) :
    (c.atFront k e).standing? = Function.update c.standing? k (some ⟨.memory, e.stamps⟩) := by
  apply standing?_eq_update
  · exact standing?_of_get? (by simp [atFront])
  · intro k' hk'
    simp [atFront, hk']
  · exact fun _ _ => rfl

theorem standing?_dropBoth (c : Overflow K V) (k : K) :
    ((c.dropMemory k).dropDisk k).standing? = Function.update c.standing? k none := by
  have hstamps (k' : K) : (((c.dropMemory k).dropDisk k).disk.bind fun t => t.stamps? k') =
      if k' = k then none else c.disk.bind fun t => t.stamps? k' := by
    show ((c.disk.map fun t => t.without k).bind _) = _
    cases c.disk with
    | none => simp
    | some t => exact t.stamps?_without k k'
  apply standing?_eq_update
  · rw [standing?_of_get?_eq_none, hstamps, if_pos rfl]
    · rfl
    · simp [dropMemory, dropDisk]
  · intro k' hk'
    simp [dropMemory, dropDisk, hk']
  · intro k' hk'
    rw [hstamps, if_neg hk']

theorem Tidy.standing?_dropMemory {c : Overflow K V} (h : c.Tidy) {k : K}
    (hk : c.onDisk k = false) : (c.dropMemory k).standing? = Function.update c.standing? k none := by
  have hdisk : (c.dropMemory k).onDisk k = false := hk
  rw [← (h.dropMemory k).dropDisk_eq_self hdisk, standing?_dropBoth]

theorem Tidy.standing?_dropDisk {c : Overflow K V} (h : c.Tidy) {k : K}
    (hk : c.inMemory k = false) : (c.dropDisk k).standing? = Function.update c.standing? k none := by
  rw [← standing?_dropBoth, h.dropMemory_eq_self hk]

/-! ## Movements -/

/-- Why an entry changes its standing. -/
inductive Cause where
  | stored
  | used
  /-- Memory pushed it out to the disk. -/
  | spilled
  | expired (x : Expiration)
  | removed
  /-- The disk pushed it out. -/
  | pushedOff
  /-- Memory pushed it out, and there is no disk tier. -/
  | dropped
  /-- Memory pushed it out, and it could not be written. -/
  | unwritten
  /-- Another value was stored under its key. -/
  | replaced
  /-- It could not be read back. -/
  | lost
  | closed
  deriving DecidableEq, Repr

/-- The reason that the listener is given. -/
def Cause.reason? : Cause → Option EvictionReason
  | .expired _ => some .expired
  | .removed => some .removed
  | .pushedOff => some .capacity
  | .dropped | .unwritten => some .overflow
  | .stored | .used | .spilled | .replaced | .lost | .closed => none

inductive Counter where
  | inserts
  | removals
  | capacity
  | timeToLive
  | timeToIdle
  | writeFailures
  deriving DecidableEq, Repr

/-- What a counter shows. -/
def Counter.reading (m : Metrics) : Counter → Nat
  | .inserts => m.inserts
  | .removals => m.removals
  | .capacity => m.evictedByCapacity
  | .timeToLive => m.evictedByTtl
  | .timeToIdle => m.evictedByTti
  | .writeFailures => m.diskWriteFailures

def Cause.counter? : Cause → Option Counter
  | .stored => some .inserts
  | .expired .live => some .timeToLive
  | .expired .idle => some .timeToIdle
  | .removed => some .removals
  | .pushedOff | .dropped => some .capacity
  | .unwritten => some .writeFailures
  | .used | .spilled | .replaced | .lost | .closed => none

/-- The standings between which a cause moves an entry. Memory looks at the stamps before an entry
leaves it; the disk does so only for a look-up and a purge. -/
inductive Passage (now : Nat) (timeToIdle : Option Duration) :
    Cause → Option Standing → Option Standing → Prop
  | stored (stamps : Timestamps) : Passage now timeToIdle .stored none (some ⟨.memory, stamps⟩)
  | used {s : Standing} (stamps : Timestamps) (hlive : s.stamps.expiration now timeToIdle = none) :
    Passage now timeToIdle .used (some s) (some ⟨.memory, stamps⟩)
  | spilled {stamps : Timestamps} (hlive : stamps.expiration now timeToIdle = none) :
    Passage now timeToIdle .spilled (some ⟨.memory, stamps⟩) (some ⟨.disk, stamps⟩)
  | expired {s : Standing} {x : Expiration} (hx : s.stamps.expiration now timeToIdle = some x) :
    Passage now timeToIdle (.expired x) (some s) none
  | removed {s : Standing}
    (hlive : s.tier = .memory → s.stamps.expiration now timeToIdle = none) :
    Passage now timeToIdle .removed (some s) none
  | pushedOff {s : Standing} (htier : s.tier = .disk) :
    Passage now timeToIdle .pushedOff (some s) none
  | dropped {stamps : Timestamps} (hlive : stamps.expiration now timeToIdle = none) :
    Passage now timeToIdle .dropped (some ⟨.memory, stamps⟩) none
  | unwritten {stamps : Timestamps} (hlive : stamps.expiration now timeToIdle = none) :
    Passage now timeToIdle .unwritten (some ⟨.memory, stamps⟩) none
  | replaced (s : Standing) : Passage now timeToIdle .replaced (some s) none
  | lost {stamps : Timestamps} (hlive : stamps.expiration now timeToIdle = none) :
    Passage now timeToIdle .lost (some ⟨.disk, stamps⟩) none
  | closed (s : Standing) : Passage now timeToIdle .closed (some s) none

/-- One key changes its standing; `value` is what the listener is shown of the entry. -/
structure Movement (K : Type u) (V : Type v) where
  key : K
  cause : Cause
  before : Option Standing
  after : Option Standing
  value : Option (Shared V) := none

def Movement.event? (m : Movement K V) : Option (Eviction K V) :=
  m.cause.reason?.map fun reason => ⟨m.key, m.value, reason⟩

def eventsOf (ms : List (Movement K V)) : List (Eviction K V) := ms.filterMap Movement.event?

omit [DecidableEq K] in
@[simp] theorem eventsOf_nil : eventsOf ([] : List (Movement K V)) = [] := rfl

omit [DecidableEq K] in
theorem eventsOf_cons (m : Movement K V) (ms : List (Movement K V)) :
    eventsOf (m :: ms) = m.event?.toList ++ eventsOf ms := by
  unfold eventsOf
  rw [List.filterMap_cons]
  cases m.event? <;> rfl

omit [DecidableEq K] in
@[simp] theorem eventsOf_append (ms ms' : List (Movement K V)) :
    eventsOf (ms ++ ms') = eventsOf ms ++ eventsOf ms' := List.filterMap_append

def keysBy (cause : Cause) (ms : List (Movement K V)) : List K :=
  (ms.filter fun m => m.cause = cause).map Movement.key

omit [DecidableEq K] in
@[simp] theorem keysBy_nil (cause : Cause) : keysBy cause ([] : List (Movement K V)) = [] := rfl

omit [DecidableEq K] in
theorem keysBy_cons (cause : Cause) (m : Movement K V) (ms : List (Movement K V)) :
    keysBy cause (m :: ms) = (if m.cause = cause then [m.key] else []) ++ keysBy cause ms := by
  unfold keysBy
  by_cases h : m.cause = cause <;> simp [h]

omit [DecidableEq K] in
@[simp] theorem keysBy_append (cause : Cause) (ms ms' : List (Movement K V)) :
    keysBy cause (ms ++ ms') = keysBy cause ms ++ keysBy cause ms' := by
  simp [keysBy]

omit [DecidableEq K] in
theorem keysBy_eq_nil {cause : Cause} {ms : List (Movement K V)}
    (h : ∀ m ∈ ms, m.cause ≠ cause) : keysBy cause ms = [] := by
  simpa [keysBy] using h

/-- `ks` leave for one cause, of which the listener is shown no value. -/
def leaving (cause : Cause) (f : K → Option Standing) (ks : List K) : List (Movement K V) :=
  ks.map fun k => ⟨k, cause, f k, none, none⟩

/-- Movements one after the other lead from standings to standings. -/
inductive Traffic (now : Nat) (timeToIdle : Option Duration) :
    (K → Option Standing) → List (Movement K V) → (K → Option Standing) → Prop
  | done (f : K → Option Standing) : Traffic now timeToIdle f [] f
  | move {f g : K → Option Standing} {ms : List (Movement K V)} (m : Movement K V)
    (hbefore : f m.key = m.before) (hpassage : Passage now timeToIdle m.cause m.before m.after)
    (hrest : Traffic now timeToIdle (Function.update f m.key m.after) ms g) :
    Traffic now timeToIdle f (m :: ms) g

section Traffic

variable {now : Nat} {timeToIdle : Option Duration} {f g h : K → Option Standing}
  {ms ms' : List (Movement K V)}

theorem Traffic.trans (hms : Traffic now timeToIdle f ms g) (hms' : Traffic now timeToIdle g ms' h) :
    Traffic now timeToIdle f (ms ++ ms') h := by
  induction hms with
  | done f => exact hms'
  | move m hbefore hpassage _ ih => exact .move m hbefore hpassage (ih hms')

theorem Traffic.one (m : Movement K V) (hbefore : f m.key = m.before)
    (hpassage : Passage now timeToIdle m.cause m.before m.after) :
    Traffic now timeToIdle f [m] (Function.update f m.key m.after) :=
  .move m hbefore hpassage (.done _)

theorem Traffic.leaving (cause : Cause) (ks : List K) (hks : ks.Nodup)
    (hpassage : ∀ k ∈ ks, Passage now timeToIdle cause (f k) none) :
    Traffic now timeToIdle f (leaving cause f ks : List (Movement K V))
      (fun k => if k ∈ ks then none else f k) := by
  induction ks generalizing f with
  | nil => simpa [leaving] using Traffic.done f
  | cons k ks ih =>
    obtain ⟨hk, hks⟩ := List.nodup_cons.1 hks
    have hsame : ∀ k' ∈ ks, Function.update f k none k' = f k' := by
      intro k' hk'
      have hne : k' ≠ k := fun heq => hk (heq ▸ hk')
      exact Function.update_of_ne hne _ _
    have hrest := ih hks (f := Function.update f k none) fun k' hk' => by
      rw [hsame k' hk']
      exact hpassage k' (List.mem_cons_of_mem k hk')
    have hmoves : (leaving cause (Function.update f k none) ks : List (Movement K V)) =
        leaving cause f ks := List.map_congr_left fun k' hk' => by rw [hsame k' hk']
    have hend : (fun k' => if k' ∈ ks then none else Function.update f k none k') =
        fun k' => if k' ∈ k :: ks then none else f k' := by
      funext k'
      by_cases heq : k' = k <;> simp [heq]
    rw [hmoves, hend] at hrest
    exact .move _ rfl (hpassage k (by simp)) hrest

/-- Whether `k` stands in the cache, as a number. -/
def standings (f : K → Option Standing) (k : K) : Nat := if (f k).isSome then 1 else 0

/-- What stands under a key and what has left is what stood there and what was stored. -/
theorem Traffic.count (hms : Traffic now timeToIdle f ms g) (k : K) :
    standings g k + ((eventsOf ms).map Eviction.key).count k +
        (keysBy .replaced ms).count k + (keysBy .lost ms).count k + (keysBy .closed ms).count k =
      standings f k + (keysBy .stored ms).count k := by
  induction hms with
  | done f => rfl
  | @move f g ms m hbefore hpassage _ ih =>
    obtain ⟨key, cause, before, after, value⟩ := m
    dsimp only at hbefore hpassage ih
    by_cases heq : key = k
    · subst heq
      simp only [standings, hbefore, Function.update_self] at ih ⊢
      cases hpassage <;>
        simp [keysBy_cons, eventsOf_cons, Movement.event?, Cause.reason?] at ih ⊢ <;> omega
    · have hk : standings (Function.update f key after) k = standings f k := by
        unfold standings
        rw [Function.update_of_ne (Ne.symm heq)]
      rw [hk] at ih
      cases hpassage <;>
        simp [keysBy_cons, eventsOf_cons, Movement.event?, Cause.reason?, heq] at ih ⊢ <;> omega

/-- Whether the entry of `k` is within its timeouts, where there is one. -/
def Live (now : Nat) (timeToIdle : Option Duration) (f : K → Option Standing) (k : K) : Prop :=
  ∃ s, f k = some s ∧ s.stamps.expiration now timeToIdle = none

theorem Traffic.live_before (hms : Traffic now timeToIdle f ms g) {k : K}
    (hk : k ∉ keysBy .stored ms) (hlive : Live now timeToIdle g k) : Live now timeToIdle f k := by
  induction hms with
  | done f => exact hlive
  | @move f g ms m hbefore hpassage _ ih =>
    obtain ⟨key, cause, before, after, value⟩ := m
    rw [keysBy_cons, List.mem_append, not_or] at hk
    obtain ⟨s, hs, hfresh⟩ := ih hk.2 hlive
    dsimp only at hbefore hpassage hk hs
    by_cases heq : k = key
    · subst heq
      rw [Function.update_self] at hs
      unfold Live
      rw [hbefore]
      cases hpassage with
      | stored stamps => exact absurd (by simp) hk.1
      | used stamps hused => exact ⟨_, rfl, hused⟩
      | spilled hspilled => exact ⟨_, rfl, hspilled⟩
      | _ => cases hs
    · rw [Function.update_of_ne heq] at hs
      exact ⟨s, hs, hfresh⟩

end Traffic

end Overflow

end CacheLayer
