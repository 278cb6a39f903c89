import CacheLayer.Proofs.Overflow.Traffic

/-!
# The account of an operation

`Overflow.Account` ties three things to one list of movements: the standings before and after an
operation, what the listener is told, and what is counted. Entries that are shed account for
themselves; an operation adds the movement of the key that it names.

* `Sheds.account` : whatever is pushed out or expires is told and counted.
* `Sound.perform_account` : every operation has an account, in which the keys that are stored,
  replaced, lost and dropped at once are those of `Op.Explains`.
-/

namespace CacheLayer

/-- No time has passed and nobody outside lets go or takes hold of anything; there may be new objects
and other files. -/
structure World.Around (w w' : World) : Prop where
  now : w'.now = w.now
  held : w'.held = w.held
  nextId : w.nextId ≤ w'.nextId

theorem World.Around.refl (w : World) : w.Around w := ⟨rfl, rfl, Nat.le_refl _⟩

theorem World.Around.trans {w w' w'' : World} (h : w.Around w') (h' : w'.Around w'') :
    w.Around w'' :=
  ⟨h'.now.trans h.now, h'.held.trans h.held, Nat.le_trans h.nextId h'.nextId⟩

namespace Overflow

variable {K : Type u} {V : Type v} [DecidableEq K]

/-! ## Accounts -/

def counts (n : Counter) (ms : List (Movement K V)) : Nat :=
  (ms.filterMap fun m => m.cause.counter?).count n

omit [DecidableEq K] in
theorem counts_append (n : Counter) (ms ms' : List (Movement K V)) :
    counts n (ms ++ ms') = counts n ms + counts n ms' := by
  unfold counts
  rw [List.filterMap_append, List.count_append]

omit [DecidableEq K] in
theorem counts_cons (n : Counter) (m : Movement K V) (ms : List (Movement K V)) :
    counts n (m :: ms) = (if m.cause.counter? = some n then 1 else 0) + counts n ms := by
  unfold counts
  rw [List.filterMap_cons]
  cases m.cause.counter? with
  | none => simp
  | some n' => by_cases h : n' = n <;> simp [h, Nat.add_comm]

omit [DecidableEq K] in
theorem counts_one (n : Counter) (m : Movement K V) :
    counts n [m] = if m.cause.counter? = some n then 1 else 0 := counts_cons n m []

omit [DecidableEq K] in
theorem length_keysBy {n : Counter} {cause : Cause}
    (h : ∀ cause', cause'.counter? = some n ↔ cause' = cause) (ms : List (Movement K V)) :
    (keysBy cause ms).length = counts n ms := by
  induction ms with
  | nil => rfl
  | cons m ms ih =>
    rw [keysBy_cons, List.length_append, ih, counts_cons]
    simp only [h]
    split <;> rfl

omit [DecidableEq K] in
theorem eventsOf_leaving {cause : Cause} {reason : EvictionReason} (hcause : cause.reason? = some reason)
    (f : K → Option Standing) (ks : List K) :
    eventsOf (leaving cause f ks : List (Movement K V)) = ks.map fun k => ⟨k, none, reason⟩ := by
  induction ks with
  | nil => rfl
  | cons k ks ih =>
    rw [leaving, List.map_cons, eventsOf_cons, Movement.event?, hcause, List.map_cons, ← ih]
    rfl

omit [DecidableEq K] in
theorem eventsOf_leaving_of_silent {cause : Cause} (hcause : cause.reason? = none)
    (f : K → Option Standing) (ks : List K) :
    eventsOf (leaving cause f ks : List (Movement K V)) = [] := by
  induction ks with
  | nil => rfl
  | cons k ks ih =>
    rw [leaving, List.map_cons, eventsOf_cons, Movement.event?, hcause]
    exact ih

omit [DecidableEq K] in
theorem counts_leaving (n : Counter) (cause : Cause) (f : K → Option Standing) (ks : List K) :
    counts n (leaving cause f ks : List (Movement K V)) =
      if cause.counter? = some n then ks.length else 0 := by
  induction ks with
  | nil => simp [leaving, counts]
  | cons k ks ih =>
    have hrest : counts n (ks.map fun k => (⟨k, cause, f k, none, none⟩ : Movement K V)) = _ := ih
    rw [leaving, List.map_cons, counts_cons, hrest]
    split <;> simp [Nat.add_comm]

/-- The movements explain what became of the entries, what was told of them and what was counted. -/
structure Account (now : Nat) (timeToIdle : Option Duration) (c : Overflow K V)
    (ms : List (Movement K V)) (s : Step (Overflow K V) (Eviction K V) α) : Prop where
  traffic : Traffic now timeToIdle c.standing? ms s.state.standing?
  log_eq : s.log = eventsOf ms
  counted : ∀ n : Counter, n.reading s.state.metrics = n.reading c.metrics + counts n ms

section Account

variable {now : Nat} {timeToIdle : Option Duration} {c : Overflow K V} {w : World} {k : K}
  {ms ms' : List (Movement K V)} {s : Step (Overflow K V) (Eviction K V) α}

theorem Account.nothing (now : Nat) (timeToIdle : Option Duration) (c : Overflow K V) (w : World)
    (a : α) : Account now timeToIdle c [] (.pure a c w) where
  traffic := .done _
  log_eq := rfl
  counted _ := rfl

theorem Account.one (m : Movement K V) (hbefore : c.standing? m.key = m.before)
    (hpassage : Passage now timeToIdle m.cause m.before m.after)
    (hafter : s.state.standing? = Function.update c.standing? m.key m.after)
    (hlog : s.log = m.event?.toList)
    (hcounted : ∀ n : Counter, n.reading s.state.metrics =
      n.reading c.metrics + if m.cause.counter? = some n then 1 else 0) :
    Account now timeToIdle c [m] s where
  traffic := by
    rw [hafter]
    exact .one m hbefore hpassage
  log_eq := by rw [hlog, eventsOf_cons, eventsOf_nil, List.append_nil]
  counted n := by rw [hcounted, counts_one]

theorem Account.trans {s' : Step (Overflow K V) (Eviction K V) β}
    (h : Account now timeToIdle c ms s) (h' : Account now timeToIdle s.state ms' s') :
    Account now timeToIdle c (ms ++ ms') { s' with log := s.log ++ s'.log } where
  traffic := h.traffic.trans h'.traffic
  log_eq := by rw [h.log_eq, h'.log_eq, eventsOf_append]
  counted n := by rw [h'.counted, h.counted, counts_append, Nat.add_assoc]

theorem Account.congr {s' : Step (Overflow K V) (Eviction K V) β}
    (h : Account now timeToIdle c ms s) (hstate : s'.state = s.state) (hlog : s'.log = s.log) :
    Account now timeToIdle c ms s' where
  traffic := by rw [hstate]; exact h.traffic
  log_eq := hlog.trans h.log_eq
  counted n := by rw [hstate]; exact h.counted n

theorem Counter.reading_expired (n : Counter) (m : Metrics) (x : Expiration) :
    n.reading (m.expired x) =
      n.reading m + if (Cause.expired x).counter? = some n then 1 else 0 := by
  cases x <;> cases n <;> rfl

/-! ## Entries that are shed -/

/-- The causes that are not of an operation's own asking. -/
def Cause.sheds : Cause → Bool
  | .spilled | .expired _ | .pushedOff | .dropped | .unwritten => true
  | .stored | .used | .removed | .replaced | .lost | .closed => false

omit [DecidableEq K] in
theorem keysBy_of_sheds (h : ∀ m ∈ ms, m.cause.sheds = true) {cause : Cause}
    (hcause : cause.sheds = false) : keysBy cause ms = [] := by
  apply keysBy_eq_nil
  intro m hm heq
  rw [← heq, h m hm] at hcause
  cases hcause

theorem standing?_written {t : DiskTier K} (hc : c.Tidy) (ht : c.disk = some t)
    (hk : c.inMemory k = false) (bytes : Nat) (stamps : Timestamps) {c' : Overflow K V}
    (hentries : c'.entries = c.entries) (hdisk : c'.disk = some (t.withWritten k bytes stamps)) :
    c'.standing? = fun k' => if k' ∈ (t.listed k bytes).2 then none
      else Function.update c.standing? k (some ⟨.disk, stamps⟩) k' := by
  funext k'
  unfold standing?
  rw [hentries, hdisk, ht, Option.bind_some, DiskTier.stamps?_withWritten]
  by_cases hpushed : k' ∈ (t.listed k bytes).2
  · have hmemory : c.entries.get? k' = none := by
      apply get?_of_not_inMemory
      rcases (hc.disk t ht).of_mem_pushed hpushed with rfl | hcontains
      · exact hk
      · exact not_inMemory_of_onDisk hc ((onDisk_of_disk ht k').trans hcontains)
    rw [hmemory, if_pos hpushed, if_pos hpushed]
    rfl
  · rw [if_neg hpushed, if_neg hpushed]
    by_cases heq : k' = k
    · rw [heq, get?_of_not_inMemory hk, if_pos rfl, Function.update_self]
      rfl
    · rw [if_neg heq, Function.update_of_ne heq]
      rfl

theorem disk_of_pushed {t : DiskTier K} (hc : c.Tidy) (ht : c.disk = some t) {bytes : Nat}
    (stamps : Timestamps) {k' : K} (hpushed : k' ∈ (t.listed k bytes).2) :
    ∃ stamps', Function.update c.standing? k (some ⟨.disk, stamps⟩) k' = some ⟨.disk, stamps'⟩ := by
  by_cases heq : k' = k
  · rw [heq, Function.update_self]
    exact ⟨stamps, rfl⟩
  · have hcontains := ((hc.disk t ht).of_mem_pushed hpushed).resolve_left heq
    have hmemory := not_inMemory_of_onDisk hc ((onDisk_of_disk ht k').trans hcontains)
    rw [DiskTier.contains_eq_isSome, Option.isSome_iff_exists] at hcontains
    obtain ⟨stamps', hstamps⟩ := hcontains
    rw [Function.update_of_ne heq,
      standing?_of_stamps? (get?_of_not_inMemory hmemory) ht hstamps]
    exact ⟨stamps', rfl⟩

/-- An entry goes to disk, and what this pushes off leaves. -/
theorem Sound.written_traffic {t : DiskTier K} {e : Entry V} (hc : c.Sound)
    (hget : c.entries.get? k = some e) (ht : c.disk = some t)
    (hlive : e.stamps.expiration now timeToIdle = none) (bytes : Nat) {c' : Overflow K V}
    (hentries : c'.entries = (c.dropMemory k).entries)
    (hdisk : c'.disk = some (t.withWritten k bytes e.stamps)) :
    Traffic now timeToIdle c.standing?
      ([(⟨k, .spilled, some ⟨.memory, e.stamps⟩, some ⟨.disk, e.stamps⟩, none⟩ : Movement K V)] ++
        leaving .pushedOff (Function.update c.standing? k (some ⟨.disk, e.stamps⟩))
          (t.listed k bytes).2)
      c'.standing? := by
  have htidy := hc.toTidy.dropMemory k
  have hvacant := hc.dropMemory (hc.not_onDisk hget)
  have hgone : Function.update (c.dropMemory k).standing? k (some ⟨.disk, e.stamps⟩) =
      Function.update c.standing? k (some ⟨.disk, e.stamps⟩) := by
    rw [hc.toTidy.standing?_dropMemory (hc.not_onDisk hget), Function.update_idem]
  rw [standing?_written htidy ht hvacant.notInMemory bytes e.stamps hentries hdisk, hgone]
  refine .move _ (standing?_of_get? hget) (.spilled hlive) ?_
  refine .leaving .pushedOff _ ((hc.disk t ht).nodup_pushed k bytes) fun k' hk' => ?_
  obtain ⟨stamps, hstamps⟩ := disk_of_pushed htidy ht e.stamps hk'
  rw [hgone] at hstamps
  rw [hstamps]
  exact .pushedOff rfl

theorem Sound.spilled_account {e : Entry V} {s : Step (Overflow K V) (Eviction K V) Unit}
    (hc : c.Sound) (hget : c.entries.get? k = some e) (hs : Spilled (c.dropMemory k) w k e s) :
    ∃ ms, Account w.now c.settings.timeToIdle c ms s ∧ ∀ m ∈ ms, m.cause.sheds = true := by
  have htidy := hc.toTidy.dropMemory k
  have hvacant := hc.dropMemory (hc.not_onDisk hget)
  have hbefore := standing?_of_get? hget
  have hgone := hc.toTidy.standing?_dropMemory (hc.not_onDisk hget)
  -- every case but the write is one movement, of `k` out of both tiers
  have hleft {cause : Cause} (hpassage : Passage w.now c.settings.timeToIdle cause
        (some ⟨.memory, e.stamps⟩) none) (hafter : s.state.standing? = (c.dropMemory k).standing?)
      (hlog : s.log = (Movement.event? ⟨k, cause, some ⟨.memory, e.stamps⟩, none,
        some e.value⟩).toList)
      (hcounted : ∀ n : Counter, n.reading s.state.metrics =
        n.reading c.metrics + if cause.counter? = some n then 1 else 0)
      (hsheds : cause.sheds = true) :
      ∃ ms, Account w.now c.settings.timeToIdle c ms s ∧ ∀ m ∈ ms, m.cause.sheds = true :=
    ⟨[⟨k, cause, some ⟨.memory, e.stamps⟩, none, some e.value⟩],
      .one _ hbefore hpassage (hafter.trans hgone) hlog hcounted, by simpa using hsheds⟩
  cases hs with
  | expired x hx =>
    exact hleft (.expired hx) (standing?_congr rfl rfl) rfl
      (fun n => n.reading_expired c.metrics x) rfl
  | dropped hlive hdisk =>
    refine hleft (.dropped hlive) (standing?_congr rfl rfl) rfl (fun n => ?_) rfl
    cases n <;> rfl
  | unencodable hlive t hdisk fault hencode =>
    refine hleft (.unwritten hlive) (standing?_congr rfl rfl) rfl (fun n => ?_) rfl
    cases n <;> rfl
  | refused hlive t hdisk bytes hencode haccepts =>
    have hnot : t.contains k = false := by
      rw [← onDisk_of_disk hdisk]
      exact hvacant.notOnDisk
    refine hleft (.unwritten hlive) ?_ rfl (fun n => ?_) rfl
    · rw [(htidy.disk t hdisk).without_eq_self hnot]
      unfold standing?
      rw [hdisk]
      rfl
    · cases n <;> rfl
  | written hlive t hdisk bytes hencode haccepts =>
    refine ⟨_, ⟨hc.written_traffic hget hdisk hlive bytes.length rfl rfl, ?_, fun n => ?_⟩, ?_⟩
    · have hcapacity : Cause.pushedOff.reason? = some .capacity := rfl
      rw [eventsOf_append, eventsOf_leaving hcapacity]
      rfl
    · rw [counts_append, counts_one, counts_leaving, if_neg nofun, Nat.zero_add]
      cases n <;> rfl
    · intro m hm
      rcases List.mem_append.1 hm with hm | hm
      · rw [List.mem_singleton.1 hm]
        rfl
      · obtain ⟨k', -, rfl⟩ := List.mem_map.1 hm
        rfl

theorem Sound.expireMemory_account {e : Entry V} {x : Expiration} (hc : c.Sound)
    (hget : c.entries.get? k = some e) (hx : c.expiration w e = some x) :
    Account w.now c.settings.timeToIdle c
      [⟨k, .expired x, some ⟨.memory, e.stamps⟩, none, some e.value⟩] (c.expireMemory w k) := by
  simp only [Overflow.expireMemory, hget, hx]
  refine .one _ (standing?_of_get? hget) (.expired hx) ?_ rfl fun n => n.reading_expired _ x
  rw [← hc.toTidy.standing?_dropMemory (hc.not_onDisk hget)]
  exact standing?_congr rfl rfl

theorem Sound.expireDisk_account {t : DiskTier K} {x : Expiration} (hc : c.Sound)
    (hdisk : c.disk = some t) (hx : t.expiration w.now c.settings.timeToIdle k = some x) :
    ∃ stamps, Account w.now c.settings.timeToIdle c
      [⟨k, .expired x, some ⟨.disk, stamps⟩, none, none⟩] (c.expireDisk w t k x) := by
  have hmemory := not_inMemory_of_onDisk hc.toTidy
    ((onDisk_of_disk hdisk k).trans (contains_of_expiration hx))
  rw [DiskTier.expiration_eq] at hx
  obtain ⟨stamps, hstamps, hx⟩ := Option.bind_eq_some_iff.1 hx
  refine ⟨stamps, .one _ (standing?_of_stamps? (get?_of_not_inMemory hmemory) hdisk hstamps)
    (.expired hx) ?_ rfl fun n => n.reading_expired _ x⟩
  rw [← hc.toTidy.standing?_dropDisk hmemory, dropDisk_eq hdisk,
    ← (hc.disk t hdisk).remove_tier w.area k]
  exact standing?_congr rfl rfl

theorem Shed.account {s : Step (Overflow K V) (Eviction K V) Unit} (hs : Shed c w s)
    (hc : c.Sound) :
    ∃ ms, Account w.now c.settings.timeToIdle c ms s ∧ ∀ m ∈ ms, m.cause.sheds = true := by
  cases hs with
  | @evict k weight rest e hpop hget =>
    exact hc.spilled_account hget ((hc.toTidy.dropMemory k).spilled w k e)
  | expireMemory hget hx =>
    exact ⟨_, hc.expireMemory_account hget hx, by simp [Cause.sheds]⟩
  | expireDisk hdisk hx =>
    obtain ⟨stamps, haccount⟩ := hc.expireDisk_account hdisk hx
    exact ⟨_, haccount, by simp [Cause.sheds]⟩

theorem Shed.around {s : Step (Overflow K V) (Eviction K V) Unit} (hs : Shed c w s)
    (hc : c.Sound) : w.Around s.world := by
  cases hs with
  | @evict k weight rest e hpop hget =>
    have hspilled := (hc.toTidy.dropMemory k).spilled w k e
    generalize (c.dropMemory k).spill w k e = s at hspilled ⊢
    cases hspilled <;> exact ⟨rfl, rfl, Nat.le_refl _⟩
  | expireMemory hget hx =>
    rw [Overflow.expireMemory, hget]
    exact .refl w
  | expireDisk hdisk hx => exact ⟨rfl, rfl, Nat.le_refl _⟩

theorem Sheds.around {s : Step (Overflow K V) (Eviction K V) Unit} (hs : Sheds c w s)
    (hc : c.Sound) : w.Around s.world := by
  induction hs with
  | refl c w => exact .refl w
  | step hs _ ih => exact (hs.around hc).trans (ih (hs.sink.sound hc))

/-- Whatever is shed has left for a cause of its own, told and counted. -/
theorem Sheds.account {s : Step (Overflow K V) (Eviction K V) Unit} (hs : Sheds c w s)
    (hc : c.Sound) :
    ∃ ms, Account w.now c.settings.timeToIdle c ms s ∧ ∀ m ∈ ms, m.cause.sheds = true := by
  induction hs with
  | refl c w => exact ⟨[], .nothing _ _ c w (), by simp⟩
  | step hs _ ih =>
    obtain ⟨ms, hfirst, hms⟩ := hs.account hc
    obtain ⟨ms', hrest, hms'⟩ := ih (hs.sink.sound hc)
    rw [(hs.around hc).now, (hs.sink.sameSetup hc).settings] at hrest
    refine ⟨ms ++ ms', hfirst.trans hrest, fun m hm => ?_⟩
    rcases List.mem_append.1 hm with hm | hm
    · exact hms m hm
    · exact hms' m hm

end Account

/-! ## The account of an operation -/

def Op.stored : Op K V → List K
  | .request (.insert k _) => [k]
  | _ => []

/-- The keys that an operation stores under while a tier holds them. -/
def Op.replaced (c : Overflow K V) : Op K V → List K
  | .request (.insert k _) => if c.inMemory k || c.onDisk k then [k] else []
  | _ => []

/-- Whether the entry of `k` is on disk and live, and no value can be read from its file. -/
def unreadable (c : Overflow K V) (w : World) (k : K) : Bool :=
  !c.inMemory k && c.onDisk k && !c.expiredOnDisk w k &&
    (c.disk.bind fun t => t.view? c.settings.codec w.area k).isNone

/-- The keys that an operation looks up and cannot read back. -/
def Op.lost (c : Overflow K V) (w : World) : Op K V → List K
  | .request (.get k) => if c.unreadable w k then [k] else []
  | _ => []

def Op.closed (c : Overflow K V) : Op K V → List K
  | .close => c.keyIndex.keys
  | _ => []

/-- What the movements of an operation are, besides those that tell of themselves. -/
structure Op.Explains (c : Overflow K V) (w : World) (op : Op K V) (ms : List (Movement K V)) :
    Prop where
  stored : keysBy .stored ms = op.stored
  replaced : keysBy .replaced ms = op.replaced c
  lost : keysBy .lost ms = op.lost c w
  closed : keysBy .closed ms = op.closed c

section Operations

variable {c : Overflow K V} {w : World} {k : K}

def replacing (c : Overflow K V) (k : K) : List (Movement K V) :=
  (c.standing? k).toList.map fun s => ⟨k, .replaced, some s, none, none⟩

theorem replacing_traffic (now : Nat) (timeToIdle : Option Duration) (c : Overflow K V) (k : K) :
    Traffic now timeToIdle c.standing? (c.replacing k) (Function.update c.standing? k none) := by
  unfold replacing
  cases hs : c.standing? k with
  | none =>
    have hsame := Function.update_eq_self k c.standing?
    rw [hs] at hsame
    rw [hsame]
    exact .done _
  | some s => exact .one ⟨k, .replaced, some s, none, none⟩ hs (.replaced s)

theorem keysBy_replacing (c : Overflow K V) (k : K) (cause : Cause) :
    keysBy cause (c.replacing k) =
      if cause = .replaced ∧ (c.inMemory k || c.onDisk k) = true then [k] else [] := by
  rw [← isSome_standing?]
  unfold replacing
  cases c.standing? k with
  | none => simp
  | some s =>
    rw [Option.toList_some, List.map_singleton, keysBy_cons, keysBy_nil, List.append_nil]
    by_cases h : cause = .replaced
    · simp [h]
    · simp [h, Ne.symm h]

omit [DecidableEq K] in
theorem reading_countInsert (n : Counter) (c : Overflow K V) :
    n.reading (countInsert c).metrics =
      n.reading c.metrics + if Cause.stored.counter? = some n then 1 else 0 := by
  cases n <;> rfl

omit [DecidableEq K] in
theorem reading_countRemoval (n : Counter) (c : Overflow K V) :
    n.reading (countRemoval c).metrics =
      n.reading c.metrics + if Cause.removed.counter? = some n then 1 else 0 := by
  cases n <;> rfl

omit [DecidableEq K] in
theorem reading_countLookup (n : Counter) (answer : Option (Shared V)) (c : Overflow K V) :
    n.reading (countLookup answer c).metrics = n.reading c.metrics := by
  unfold countLookup
  cases answer <;> cases n <;> rfl

theorem Sound.insert_account (hc : c.Sound) (w : World) (k : K) (value : Shared V) :
    ∃ ms, Account w.now c.settings.timeToIdle c ms (c.insert w k value) ∧
      Op.Explains c w (.request (.insert k value)) ms := by
  have hfront := (hc.dropBoth k).atFront (c.freshEntry w value)
  have hstanding : (((c.dropMemory k).dropDisk k).atFront k (c.freshEntry w value)).standing? =
      Function.update (Function.update c.standing? k none) k
        (some ⟨.memory, (c.freshEntry w value).stamps⟩) := by
    rw [standing?_atFront, standing?_dropBoth]
  have hstored : Traffic w.now c.settings.timeToIdle (Function.update c.standing? k none)
      [(⟨k, .stored, none, some ⟨.memory, (c.freshEntry w value).stamps⟩, none⟩ : Movement K V)]
      (((c.dropMemory k).dropDisk k).atFront k (c.freshEntry w value)).standing? := by
    rw [hstanding]
    exact .one _ (Function.update_self k none c.standing?) (.stored _)
  obtain ⟨ms, hrest, hms⟩ := (takeIn_sheds hfront (c.clearedWorld w k)).account hfront
  rw [now_clearedWorld] at hrest
  rw [hc.insert_eq]
  refine ⟨c.replacing k ++ [_] ++ ms,
    ⟨((replacing_traffic _ _ c k).trans hstored).trans hrest.traffic, ?_, fun n => ?_⟩,
    ⟨?_, ?_, ?_, ?_⟩⟩
  · show (((c.dropMemory k).dropDisk k).takeIn (c.clearedWorld w k) k (c.freshEntry w value)).log = _
    rw [hrest.log_eq, eventsOf_append, eventsOf_append]
    unfold replacing
    cases c.standing? k <;> rfl
  -- the entry that is replaced is counted nowhere, and the new one at the very end
  · have hsilent : counts n (c.replacing k) = 0 := by
      unfold replacing
      cases c.standing? k <;> rfl
    have hgrown : n.reading (((c.dropMemory k).dropDisk k).takeIn (c.clearedWorld w k) k
        (c.freshEntry w value)).state.metrics = n.reading c.metrics + counts n ms := hrest.counted n
    rw [counts_append, counts_append, hsilent, counts_one]
    show n.reading (countInsert _).metrics = _
    rw [reading_countInsert, hgrown]
    dsimp only
    omega
  all_goals
    rw [keysBy_append, keysBy_append, keysBy_replacing, keysBy_of_sheds hms rfl]
    simp [keysBy_cons, Op.stored, Op.replaced, Op.lost, Op.closed]

theorem expiredOnDisk_of_stamps? {t : DiskTier K} {stamps : Timestamps} (hdisk : c.disk = some t)
    (hstamps : t.stamps? k = some stamps) :
    c.expiredOnDisk w k = (stamps.expiration w.now c.settings.timeToIdle).isSome := by
  rw [expiredOnDisk, hdisk, Option.bind_some, DiskTier.expiration_eq, hstamps, Option.bind_some]

theorem unreadable_of_unread {t : DiskTier K} {stamps : Timestamps} (hmemory : c.inMemory k = false)
    (hdisk : c.disk = some t) (hstamps : t.stamps? k = some stamps)
    (hfresh : stamps.expiration w.now c.settings.timeToIdle = none)
    (hunread : ∀ bytes v, t.content? w.area k = some bytes →
      c.settings.codec.read bytes ≠ .ok v) : c.unreadable w k = true := by
  have hon : c.onDisk k = true := by
    rw [onDisk_of_disk hdisk, DiskTier.contains_eq_isSome, hstamps]
    rfl
  have hview : (t.view? c.settings.codec w.area k).isNone = true := by
    rw [DiskTier.view?, hstamps, Option.bind_some]
    cases hcontent : t.content? w.area k with
    | none => rfl
    | some bytes =>
      cases hread : c.settings.codec.read bytes with
      | error fault => simp [hread, Except.toOption]
      | ok v => exact absurd hread (hunread bytes v hcontent)
  simp [unreadable, hon, hmemory, expiredOnDisk_of_stamps? hdisk hstamps, hfresh, hdisk, hview]

theorem Gone.account {s : Step (Overflow K V) (Eviction K V) Unit} (hs : Gone c w k s)
    (hc : c.Sound) :
    ∃ ms, Account w.now c.settings.timeToIdle c ms s ∧ Op.Explains c w (.request (.get k)) ms := by
  cases hs with
  | @expiredInMemory e x hget hx =>
    have hread : c.unreadable w k = false := by simp [unreadable, inMemory_of_get? hget]
    exact ⟨_, hc.expireMemory_account hget hx,
      ⟨rfl, rfl, by simp [Op.lost, hread, keysBy_cons], rfl⟩⟩
  | @expiredOnDisk t x hmemory hdisk hx =>
    have hread : c.unreadable w k = false := by simp [unreadable, Overflow.expiredOnDisk, hdisk, hx]
    obtain ⟨stamps, haccount⟩ := hc.expireDisk_account hdisk hx
    exact ⟨_, haccount, ⟨rfl, rfl, by simp [Op.lost, hread, keysBy_cons], rfl⟩⟩
  | @lost t taken hmemory hdisk hlive htake hunread =>
    have hcontains := DiskTier.contains_of_take htake
    rw [DiskTier.contains_eq_isSome, Option.isSome_iff_exists] at hcontains
    obtain ⟨stamps, hstamps⟩ := hcontains
    have hfresh : stamps.expiration w.now c.settings.timeToIdle = none := by
      rwa [DiskTier.expiration_eq, hstamps] at hlive
    have hread := unreadable_of_unread (not_inMemory_of_get? hmemory) hdisk hstamps hfresh hunread
    refine ⟨[⟨k, .lost, some ⟨.disk, stamps⟩, none, none⟩],
      .one _ (standing?_of_stamps? hmemory hdisk hstamps) (.lost hfresh) ?_ rfl fun n => ?_,
      ⟨rfl, rfl, by simp [Op.lost, hread, keysBy_cons], rfl⟩⟩
    · rw [← hc.toTidy.standing?_dropDisk (not_inMemory_of_get? hmemory), dropDisk_eq hdisk,
        ← DiskTier.take_tier htake]
      exact standing?_congr rfl rfl
    · cases n <;> rfl

theorem Found.account {s : Step (Overflow K V) (Eviction K V) (Option (Shared V))}
    (hs : Found c w k s) (hc : c.Sound) :
    ∃ ms, Account w.now c.settings.timeToIdle c ms s ∧ Op.Explains c w (.request (.get k)) ms := by
  cases hs with
  | absent hmemory hdisk =>
    have hread : c.unreadable w k = false := by simp [unreadable, hdisk]
    exact ⟨[], .nothing _ _ c w none, ⟨rfl, rfl, by simp [Op.lost, hread], rfl⟩⟩
  | gone hs =>
    obtain ⟨ms, haccount, hexplains⟩ := hs.account hc
    exact ⟨ms, haccount.congr rfl rfl, hexplains⟩
  | @hit e hget hlive =>
    have hread : c.unreadable w k = false := by simp [unreadable, inMemory_of_get? hget]
    have hafter := standing?_atFront c k { e with stamps := c.touched w e.stamps }
    refine ⟨[⟨k, .used, some ⟨.memory, e.stamps⟩, some ⟨.memory, c.touched w e.stamps⟩, none⟩],
      .one _ (standing?_of_get? hget) (.used _ hlive) (.trans ?_ hafter) rfl fun n => ?_,
      ⟨rfl, rfl, by simp [Op.lost, hread, keysBy_cons], rfl⟩⟩
    · exact standing?_congr rfl rfl
    · cases n <;> rfl
  | @promoted t bytes stamps v hmemory hdisk hstamps hlive hcontent hread =>
    have hreadable : c.unreadable w k = false := by
      simp [unreadable, hdisk, DiskTier.view?, hstamps, hcontent, hread, Except.toOption]
    have hfront := (lifted_vacant hc hmemory hdisk).atFront
      ⟨⟨w.nextId, v⟩, c.weigh v, c.touched w stamps⟩
    -- the look-up moves `k` up first, and what is shed to make room for it comes after
    have hused : Traffic w.now c.settings.timeToIdle c.standing?
        [(⟨k, .used, some ⟨.disk, stamps⟩, some ⟨.memory, c.touched w stamps⟩, none⟩ :
          Movement K V)]
        ((c.lifted t k).atFront k ⟨⟨w.nextId, v⟩, c.weigh v, c.touched w stamps⟩).standing? := by
      have hlifted : (c.lifted t k).standing? = Function.update c.standing? k none := by
        rw [← hc.toTidy.standing?_dropDisk (not_inMemory_of_get? hmemory), dropDisk_eq hdisk]
        exact standing?_congr rfl rfl
      rw [standing?_atFront, hlifted, Function.update_idem]
      exact .one _ (standing?_of_stamps? hmemory hdisk hstamps) (.used _ hlive)
    obtain ⟨ms, hrest, hms⟩ := (takeIn_sheds hfront
      (World.share { w with area := (t.deleteSlot w.area k).2 } v).2).account hfront
    refine ⟨[_] ++ ms, ⟨hused.trans hrest.traffic, hrest.log_eq, fun n => ?_⟩, ⟨?_, ?_, ?_, ?_⟩⟩
    · rw [counts_append, counts_one, if_neg (fun h => by cases h), Nat.zero_add]
      refine (hrest.counted n).trans ?_
      cases n <;> rfl
    all_goals
      rw [keysBy_append, keysBy_of_sheds hms rfl]
      simp [keysBy_cons, Op.stored, Op.replaced, Op.lost, Op.closed, hreadable]

theorem Sound.get_account (hc : c.Sound) (w : World) (k : K) :
    ∃ ms, Account w.now c.settings.timeToIdle c ms (c.get w k) ∧
      Op.Explains c w (.request (.get k)) ms := by
  obtain ⟨ms, haccount, hexplains⟩ := (find_found c w k).account hc
  refine ⟨ms, ⟨haccount.traffic, haccount.log_eq, fun n => ?_⟩, hexplains⟩
  rw [get_eq]
  exact (reading_countLookup n _ _).trans (haccount.counted n)

theorem Sound.remove_account (hc : c.Sound) (w : World) (k : K) :
    ∃ ms, Account w.now c.settings.timeToIdle c ms (c.remove w k) ∧
      Op.Explains c w (.request (.remove k)) ms := by
  have hremoved := hc.removed w k
  generalize c.remove w k = s at hremoved ⊢
  cases hremoved with
  | absent hmemory hdisk =>
    exact ⟨[], ⟨.done _, rfl, fun _ => rfl⟩, ⟨rfl, rfl, rfl, rfl⟩⟩
  | @expired e x hget hx =>
    refine ⟨[⟨k, .expired x, some ⟨.memory, e.stamps⟩, none, some e.value⟩],
      .one _ (standing?_of_get? hget) (.expired hx) ?_ rfl fun n => n.reading_expired _ x,
      ⟨rfl, rfl, rfl, rfl⟩⟩
    rw [← hc.toTidy.standing?_dropMemory (hc.not_onDisk hget)]
    exact standing?_congr rfl rfl
  | @fromMemory e hget hlive =>
    refine ⟨[⟨k, .removed, some ⟨.memory, e.stamps⟩, none, some e.value⟩],
      .one _ (standing?_of_get? hget) (.removed fun _ => hlive) ?_ rfl
        fun n => reading_countRemoval n _, ⟨rfl, rfl, rfl, rfl⟩⟩
    rw [← hc.toTidy.standing?_dropMemory (hc.not_onDisk hget)]
    exact standing?_congr rfl rfl
  | @fromDisk t hmemory hdisk hcontains =>
    rw [DiskTier.contains_eq_isSome, Option.isSome_iff_exists] at hcontains
    obtain ⟨stamps, hstamps⟩ := hcontains
    refine ⟨[⟨k, .removed, some ⟨.disk, stamps⟩, none, none⟩],
      .one _ (standing?_of_stamps? (get?_of_not_inMemory hmemory) hdisk hstamps) (.removed nofun) ?_
        rfl fun n => reading_countRemoval n _, ⟨rfl, rfl, rfl, rfl⟩⟩
    rw [← hc.toTidy.standing?_dropDisk hmemory]
    exact standing?_congr rfl rfl

theorem Sound.purgeExpired_account (hc : c.Sound) (w : World) :
    ∃ ms, Account w.now c.settings.timeToIdle c ms (c.purgeExpired w) ∧
      ∀ cause, Cause.sheds cause = false → keysBy cause ms = [] := by
  obtain ⟨ms, haccount, hms⟩ := (purgeExpired_sheds hc w).account hc
  exact ⟨ms, haccount, fun _ hcause => keysBy_of_sheds hms hcause⟩

theorem Sound.close_account (hc : c.Sound) (w : World) :
    ∃ ms, Account w.now c.settings.timeToIdle c ms (c.close w) ∧ Op.Explains c w .close ms := by
  have hpassage : ∀ k ∈ c.keyIndex.keys,
      Passage w.now c.settings.timeToIdle .closed (c.standing? k) none := by
    intro k hk
    rw [Table.mem_keys, hc.index, ← isSome_standing?, Option.isSome_iff_exists] at hk
    obtain ⟨s, hs⟩ := hk
    rw [hs]
    exact .closed s
  have hempty : (c.close w).state.standing? =
      fun k => if k ∈ c.keyIndex.keys then none else c.standing? k := by
    funext k
    have hnone : (c.close w).state.standing? k = none := by
      rw [close_state, standing?_of_get?_eq_none rfl]
      cases c.disk <;> rfl
    rw [hnone]
    split
    · rfl
    · rename_i hk
      rw [Table.mem_keys, hc.index, ← isSome_standing?, Option.not_isSome_iff_eq_none] at hk
      exact hk.symm
  refine ⟨leaving .closed c.standing? c.keyIndex.keys, ⟨?_, ?_, fun n => ?_⟩, ⟨?_, ?_, ?_, ?_⟩⟩
  · rw [hempty]
    exact .leaving .closed _ c.keyIndex.nodup_keys hpassage
  · rw [eventsOf_leaving_of_silent rfl]
    unfold close
    cases c.disk <;> rfl
  · rw [counts_leaving, if_neg nofun, close_state]
    rfl
  all_goals
    simp [keysBy, leaving, List.filter_map, Function.comp_def, Op.stored, Op.replaced, Op.lost,
      Op.closed]

/-- What becomes of the entries in an operation, what is told of them and what is counted, are
different sides of the same movements. -/
theorem Sound.perform_account (hc : c.Sound) (w : World) (op : Op K V) :
    ∃ ms, Account w.now c.settings.timeToIdle c ms (c.perform w op) ∧ op.Explains c w ms := by
  have hpurge (op : Op K V) (hstored : op.stored = []) (hreplaced : op.replaced c = [])
      (hlost : op.lost c w = []) (hclosed : op.closed c = []) :
      ∃ ms, Account w.now c.settings.timeToIdle c ms (c.purgeExpired w) ∧ op.Explains c w ms := by
    obtain ⟨ms, haccount, hms⟩ := hc.purgeExpired_account w
    exact ⟨ms, haccount, ⟨(hms _ rfl).trans hstored.symm, (hms _ rfl).trans hreplaced.symm,
      (hms _ rfl).trans hlost.symm, (hms _ rfl).trans hclosed.symm⟩⟩
  cases op with
  | request r =>
    cases r with
    | insert k value =>
      obtain ⟨ms, haccount, hms⟩ := hc.insert_account w k value
      exact ⟨ms, haccount.congr rfl rfl, hms⟩
    | remove k =>
      obtain ⟨ms, haccount, hms⟩ := hc.remove_account w k
      exact ⟨ms, haccount.congr rfl rfl, hms⟩
    | get k =>
      obtain ⟨ms, haccount, hms⟩ := hc.get_account w k
      exact ⟨ms, haccount.congr rfl rfl, hms⟩
    | contains k => exact ⟨[], .nothing _ _ c w _, ⟨rfl, rfl, rfl, rfl⟩⟩
    | keys =>
      obtain ⟨ms, haccount, hms⟩ := hpurge (.request .keys) rfl rfl rfl rfl
      exact ⟨ms, haccount.congr rfl rfl, hms⟩
    | size =>
      obtain ⟨ms, haccount, hms⟩ := hpurge (.request .size) rfl rfl rfl rfl
      exact ⟨ms, haccount.congr rfl rfl, hms⟩
  | purgeExpired =>
    obtain ⟨ms, haccount, hms⟩ := hpurge .purgeExpired rfl rfl rfl rfl
    exact ⟨ms, haccount.congr rfl rfl, hms⟩
  | close =>
    obtain ⟨ms, haccount, hms⟩ := hc.close_account w
    exact ⟨ms, haccount.congr rfl rfl, hms⟩
  | outside change => exact ⟨[], .nothing _ _ c _ _, ⟨rfl, rfl, rfl, rfl⟩⟩

end Operations

end Overflow

end CacheLayer
