import CacheLayer.Proofs.Overflow.Copy
import CacheLayer.Proofs.Overflow.Run

/-!
# No look-up finds a stale value

What a run recorded tells which value a key ought to have, when it was stored and when it was last
used: its `Deposit`. However an entry moved between memory and disk, and whatever files others took
away, what can be read under a key is what was deposited there, with stamps that tell the same times.

* `deposit` : the deposit under a key, from the record of a run.
* `Backed` : what can be read is deposited; kept by every operation.
* `get_fresh` : a look-up finds what was deposited, within both timeouts.
-/

namespace CacheLayer.Overflow

variable {K : Type u} {V : Type v} [DecidableEq K]

/-! ## Deposits -/

/-- A value, when it was stored, and when it was stored or found last. -/
structure Deposit (V : Type v) where
  value : V
  storedAt : Nat
  usedAt : Nat

/-- The deposit under `k` after one more thing happened. An insertion makes one, a look-up that finds
a value uses it, and a removal of the key or closing the cache ends it. -/
def Deposit.next (k : K) (before : Option (Deposit V)) (r : Record K V) : Option (Deposit V) :=
  match r.op, r.reply with
  | .request (.insert k' value), _ => if k' = k then some ⟨value.value, r.now, r.now⟩ else before
  | .request (.remove k'), _ => if k' = k then none else before
  | .request (.get k'), .value (some _) =>
    if k' = k then before.map fun d => { d with usedAt := r.now } else before
  | .close, _ => none
  | _, _ => before

/-- The deposit under `k` after a run. -/
def deposit (k : K) (log : List (Record K V)) : Option (Deposit V) :=
  log.foldl (Deposit.next k) none

theorem deposit_append (k : K) (log : List (Record K V)) (r : Record K V) :
    deposit k (log ++ [r]) = Deposit.next k (deposit k log) r := by
  rw [deposit, List.foldl_append]
  rfl

/-- The stamps tell when the value was stored and, under a time to idle, when it was last used. -/
def Deposit.Stamped (d : Deposit V) (settings : OverflowSettings V) (stamps : Timestamps) : Prop :=
  stamps.expiresAt =
      (Timestamps.create d.storedAt settings.timeToLive settings.timeToIdle).expiresAt ∧
    (settings.timeToIdle.isSome = true → stamps.lastAccessed = saturate d.usedAt)

theorem Deposit.stamped_create (settings : OverflowSettings V) (v : V) (now : Nat) :
    Deposit.Stamped ⟨v, now, now⟩ settings
      (.create now settings.timeToLive settings.timeToIdle) :=
  ⟨rfl, fun hidle => by simp [Timestamps.create, hidle]⟩

omit [DecidableEq K] in
theorem Deposit.Stamped.touched {d : Deposit V} {c : Overflow K V} {stamps : Timestamps}
    (h : d.Stamped c.settings stamps) (w : World) :
    Deposit.Stamped { d with usedAt := w.now } c.settings (c.touched w stamps) := by
  refine ⟨?_, fun hidle => ?_⟩
  · rw [← h.1]
    unfold Overflow.touched
    split <;> rfl
  · rw [Overflow.touched, if_pos hidle]
    rfl

theorem Deposit.Stamped.before_live {d : Deposit V} {settings : OverflowSettings V}
    {stamps : Timestamps} (h : d.Stamped settings stamps) {now : Nat}
    (hlive : stamps.expiration now settings.timeToIdle = none) (hnow : now < maxCount)
    {timeToLive : Duration} (hset : settings.timeToLive = some timeToLive)
    (hpos : 0 < d.storedAt + timeToLive.nanos) : now < d.storedAt + timeToLive.nanos := by
  have hexpires : stamps.expiresAt =
      saturate (saturate d.storedAt + saturate timeToLive.nanos) := by
    rw [h.1, hset]
    rfl
  unfold Timestamps.expiration at hlive
  split at hlive
  · cases hlive
  · rename_i hnot
    rw [hexpires] at hnot
    unfold saturate maxCount at hnot
    unfold maxCount at hnow
    omega

theorem Deposit.Stamped.before_idle {d : Deposit V} {settings : OverflowSettings V}
    {stamps : Timestamps} (h : d.Stamped settings stamps) {now : Nat}
    (hlive : stamps.expiration now settings.timeToIdle = none) (hnow : now < maxCount)
    {timeToIdle : Duration} (hset : settings.timeToIdle = some timeToIdle) :
    now < d.usedAt + timeToIdle.nanos := by
  have hused : stamps.lastAccessed = saturate d.usedAt := by
    apply h.2
    rw [hset]
    rfl
  unfold Timestamps.expiration at hlive
  split at hlive
  · cases hlive
  · rw [hset] at hlive
    simp only [hused] at hlive
    split at hlive
    · cases hlive
    · rename_i hnot
      unfold saturate maxCount at hnot
      unfold maxCount at hnow
      omega

/-! ## The invariant -/

/-- What can be read under a key is what was deposited there. -/
def Backed (c : Overflow K V) (area : FileArea) (log : List (Record K V)) : Prop :=
  ∀ k stamps v, Copy c area k stamps v →
    ∃ d, deposit k log = some d ∧ v = d.value ∧ d.Stamped c.settings stamps

/-- The operation is not one by which others put files into the area. -/
def Op.OnlyLoses : Op K V → Prop
  | .outside change => FileArea.Loses change
  | _ => True

theorem Backed.sinks {c : Overflow K V} {w : World} {log : List (Record K V)}
    {s : Step (Overflow K V) (Eviction K V) Unit} {r : Record K V} (hbacked : Backed c w.area log)
    (h : c.Sound) (hcodec : c.settings.codec.Truthful) (hs : Sinks c w s)
    (hr : ∀ k, Deposit.next k (deposit k log) r = deposit k log) :
    Backed s.state s.world.area (log ++ [r]) := by
  intro k stamps v hcopy
  rw [deposit_append, hr, (hs.sameSetup h).settings]
  exact hbacked k stamps v (hcopy.of_sinks hs h hcodec)

theorem Backed.insert {c : Overflow K V} {w : World} {log : List (Record K V)}
    (hbacked : Backed c w.area log) (h : c.Sound) (hcodec : c.settings.codec.Truthful) (k : K)
    (value : Shared V) (reply : MapReply K (Shared V)) (events : List (Eviction K V)) :
    Backed (c.insert w k value).state (c.insert w k value).world.area
      (log ++ [⟨w.now, .request (.insert k value), reply, events⟩]) := by
  intro k' stamps v hcopy
  rw [deposit_append, (h.sameSetup_insert w k value).settings]
  rcases hcopy.of_insert h hcodec with ⟨rfl, rfl, rfl⟩ | ⟨hk, hother⟩
  · exact ⟨⟨value.value, w.now, w.now⟩, if_pos rfl, rfl, Deposit.stamped_create _ _ _⟩
  · have hsame : Deposit.next k' (deposit k' log)
        ⟨w.now, .request (.insert k value), reply, events⟩ = deposit k' log := if_neg fun heq =>
      hk heq.symm
    rw [hsame]
    exact hbacked k' stamps v hother

theorem Backed.remove {c : Overflow K V} {w : World} {log : List (Record K V)}
    (hbacked : Backed c w.area log) (h : c.Sound) (k : K) (reply : MapReply K (Shared V))
    (events : List (Eviction K V)) :
    Backed (c.remove w k).state (c.remove w k).world.area
      (log ++ [⟨w.now, .request (.remove k), reply, events⟩]) := by
  intro k' stamps v hcopy
  obtain ⟨hk, hother⟩ := hcopy.of_remove h
  have hsame : Deposit.next k' (deposit k' log) ⟨w.now, .request (.remove k), reply, events⟩ =
      deposit k' log := if_neg fun heq => hk heq.symm
  rw [deposit_append, (h.sameSetup_remove w k).settings, hsame]
  exact hbacked k' stamps v hother

theorem Deposit.next_get (k k' : K) (before : Option (Deposit V)) (now : Nat)
    (found : Option (Shared V)) (events : List (Eviction K V)) :
    Deposit.next k' before ⟨now, .request (.get k), .value found, events⟩ =
      if k' = k ∧ found.isSome then before.map fun d => { d with usedAt := now } else before := by
  cases found with
  | none => simp [Deposit.next]
  | some value => simp [Deposit.next, eq_comm]

theorem Backed.get {c : Overflow K V} {w : World} {log : List (Record K V)}
    (hbacked : Backed c w.area log) (h : c.Sound) (hcodec : c.settings.codec.Truthful) (k : K)
    (events : List (Eviction K V)) :
    Backed (c.get w k).state (c.get w k).world.area
      (log ++ [⟨w.now, .request (.get k), .value (c.get w k).answer, events⟩]) := by
  intro k' stamps v hcopy
  rw [deposit_append, (h.sameSetup_get w k).settings, Deposit.next_get]
  rw [get_eq] at hcopy ⊢
  have hfound : Copy (c.find w k).state (c.find w k).world.area k' stamps v :=
    hcopy.mono rfl (fun _ he => he) fun t ht => ⟨t, ht, .refl _ _ _⟩
  obtain ⟨before, hbefore, rfl⟩ := hfound.of_found (find_found c w k) h hcodec
  obtain ⟨d, hd, hv, hstamped⟩ := hbacked k' before v hbefore
  by_cases hhit : k' = k ∧ (c.find w k).answer.isSome = true
  · refine ⟨{ d with usedAt := w.now }, ?_, hv, ?_⟩
    · rw [hd]
      exact if_pos hhit
    · rw [if_pos hhit]
      exact hstamped.touched w
  · refine ⟨d, ?_, hv, ?_⟩
    · rw [hd]
      exact if_neg hhit
    · rw [if_neg hhit]
      exact hstamped

theorem Backed.perform {c : Overflow K V} {w : World} {log : List (Record K V)}
    (hbacked : Backed c w.area log) (h : c.Sound) (hcodec : c.settings.codec.Truthful)
    {op : Op K V} (hop : op.OnlyLoses) :
    Backed (c.perform w op).state (c.perform w op).world.area
      (log ++ [⟨w.now, op, (c.perform w op).answer, (c.perform w op).log⟩]) := by
  cases op with
  | request r =>
    cases r with
    | insert k value => exact hbacked.insert h hcodec k value _ _
    | remove k => exact hbacked.remove h k _ _
    | get k => exact hbacked.get h hcodec k _
    | contains k => exact hbacked.sinks h hcodec (.refl c w) fun _ => rfl
    | keys => exact hbacked.sinks h hcodec (purgeExpired_sinks h w) fun _ => rfl
    | size => exact hbacked.sinks h hcodec (purgeExpired_sinks h w) fun _ => rfl
  | purgeExpired => exact hbacked.sinks h hcodec (purgeExpired_sinks h w) fun _ => rfl
  | close =>
    intro k stamps v hcopy
    exact (not_copy_close c w hcopy).elim
  | outside change =>
    intro k stamps v hcopy
    rw [deposit_append]
    exact hbacked k stamps v (hcopy.of_loses hop)

theorem Built.not_copy {b : Builder} {st : Storage K V} {w w' : World} {c : Overflow K V}
    (h : Built b st w c w') {area : FileArea} {k : K} {stamps : Timestamps} {v : V} :
    ¬ Copy c area k stamps v := by
  cases h with
  | memoryOnly hpersistence => exact not_copy_of_vacant rfl rfl
  | overDisk hpersistence hplace hunwritable => exact not_copy_of_vacant rfl rfl

theorem backed_run {b : Builder} {st : Storage K V} {w w' : World} {c : Overflow K V}
    (hstart : Built b st w c w') (hcodec : st.codec.Faithful) (turns : List (Turn K V))
    (hturns : ∀ turn ∈ turns, turn.op.OnlyLoses) :
    Backed (c.run w' turns).state (c.run w' turns).world.area (c.run w' turns).log := by
  have hkept := run_keeps (Q := Op.OnlyLoses) (w := w')
    (P := fun c' w log => SameSetup c c' ∧ Backed c' w.area log)
    (fun c' w log op h hop hc' => by
      refine ⟨hc'.1.trans (h.sameSetup_perform w op), hc'.2.perform h ?_ hop⟩
      rw [hc'.1.settings, hstart.setup.1]
      exact hcodec.truthful)
    (fun _ _ _ _ h => h) turns hturns [] hstart.sound
    ⟨.refl c, fun _ _ _ hcopy => (hstart.not_copy hcopy).elim⟩
  exact hkept.2

/-- Whatever value a look-up finds was stored by the last operation that touched what lies under its
key, and neither timeout is over: not the time to live since then, nor the time to idle since it was
stored or found last. -/
theorem get_fresh (b : Builder) (st : Storage K V) {w w' : World} {c : Overflow K V}
    (hbuilt : b.buildOverflow st w = (.ok c, w')) (hcodec : st.codec.Faithful)
    (turns : List (Turn K V)) (hturns : ∀ turn ∈ turns, turn.op.OnlyLoses) (wait : Nat) (k : K)
    (value : Shared V)
    (hfound : ((c.run w' turns).state.get ((c.run w' turns).world.advance wait) k).answer =
      some value)
    (hnow : ((c.run w' turns).world.advance wait).now < maxCount) :
    ∃ d, deposit k (c.run w' turns).log = some d ∧ value.value = d.value ∧
      (∀ timeToLive, b.config.timeToLive = some timeToLive → 0 < d.storedAt + timeToLive.nanos →
        ((c.run w' turns).world.advance wait).now < d.storedAt + timeToLive.nanos) ∧
      ∀ timeToIdle, b.config.timeToIdle = some timeToIdle →
        ((c.run w' turns).world.advance wait).now < d.usedAt + timeToIdle.nanos := by
  have hstart := Builder.built hbuilt
  have hsettings : (c.run w' turns).state.settings = b.overflowSettings st :=
    (sameSetup_run turns hstart.sound).settings.trans hstart.setup.1
  obtain ⟨stamps, hcopy, hlive⟩ := (find_found _ _ k).copy hfound
  obtain ⟨d, hd, hv, hstamped⟩ := backed_run hstart hcodec turns hturns k stamps _ hcopy
  rw [hsettings] at hstamped hlive
  exact ⟨d, hd, hv, fun _ hset hpos => hstamped.before_live hlive hnow hset hpos,
    fun _ hset => hstamped.before_idle hlive hnow hset⟩

/-- A value that was found once is spilled and found on disk, within both timeouts. -/
theorem get_fresh_pair : ∃ d : Deposit UInt8,
    deposit 1 ((pairCache (some ⟨100⟩) (some ⟨10⟩)).run pairWorld
      [⟨0, .request (.insert 1 ⟨0, 7⟩)⟩, ⟨8, .request (.get 1)⟩,
        ⟨1, .request (.insert 2 ⟨1, 8⟩)⟩]).log = some d ∧ 7 = d.value ∧
      (∀ timeToLive, some (Duration.mk 100) = some timeToLive →
        0 < d.storedAt + timeToLive.nanos → 17 < d.storedAt + timeToLive.nanos) ∧
      ∀ timeToIdle, some (Duration.mk 10) = some timeToIdle →
        17 < d.usedAt + timeToIdle.nanos :=
  get_fresh (pairBuilder (some ⟨100⟩) (some ⟨10⟩)) byteStorage (pair_built _ _)
    faithful_byteStorage
    [⟨0, .request (.insert 1 ⟨0, 7⟩)⟩, ⟨8, .request (.get 1)⟩, ⟨1, .request (.insert 2 ⟨1, 8⟩)⟩]
    (by simp [Op.OnlyLoses]) 8 1 ⟨0, 7⟩ (by decide) (by decide)

end CacheLayer.Overflow
