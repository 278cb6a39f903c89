import CacheLayer.Proofs.Overflow.Copy
import CacheLayer.Proofs.Overflow.Run
import CacheLayer.Proofs.Overflow.View

/-!
# Removing from a two-tier cache

Whether a key counts as present is decided by the stamps of its entry, in whichever tier it is. A
removal says whether its key was present, unless the entry is an expired one on disk: there the stamps
are not looked at. Other keys are seen after a removal as they were seen before.

* `EveryStamp` : what holds of the stamps of all entries; `EveryStamp.perform` : every operation keeps
  it.
* `Sound.contains_eq` : a key is present if there are stamps for it and they are not expired.
* `Sound.remove_answer` : what a removal answers.
* `Sound.seen_remove` : what is seen after a removal.
-/

namespace CacheLayer.Overflow

variable {K : Type u} {V : Type v} [DecidableEq K] {p : Timestamps → Prop}

/-! ## What holds of all stamps -/

structure EveryStamp (p : Timestamps → Prop) (c : Overflow K V) : Prop where
  memory : ∀ k e, c.entries.get? k = some e → p e.stamps
  disk : ∀ t, c.disk = some t → ∀ k stamps, t.stamps? k = some stamps → p stamps

theorem EveryStamp.mono {c c' : Overflow K V} (h : EveryStamp p c)
    (hmemory : ∀ k e, c'.entries.get? k = some e → c.entries.get? k = some e)
    (hdisk : ∀ t', c'.disk = some t' → ∃ t, c.disk = some t ∧
      ∀ k stamps, t'.stamps? k = some stamps → t.stamps? k = some stamps) : EveryStamp p c' where
  memory k e hget := h.memory k e (hmemory k e hget)
  disk t' ht' k stamps hstamps := by
    obtain ⟨t, ht, hfewer⟩ := hdisk t' ht'
    exact h.disk t ht k stamps (hfewer k stamps hstamps)

theorem EveryStamp.of_tiers {c c' : Overflow K V} (h : EveryStamp p c)
    (hentries : c'.entries = c.entries) (hdisk : c'.disk = c.disk) : EveryStamp p c' :=
  h.mono (fun _ _ hget => hentries ▸ hget) fun t ht => ⟨t, hdisk ▸ ht, fun _ _ hstamps => hstamps⟩

theorem stamps?_of_without {t : DiskTier K} {k k' : K} {stamps : Timestamps}
    (h : (t.without k).stamps? k' = some stamps) : t.stamps? k' = some stamps := by
  rw [DiskTier.stamps?_without] at h
  split at h
  · cases h
  · exact h

theorem EveryStamp.dropMemory {c : Overflow K V} (h : EveryStamp p c) (k : K) :
    EveryStamp p (c.dropMemory k) :=
  h.mono (fun _ _ hget => get?_of_get?_erase hget) fun t ht => ⟨t, ht, fun _ _ hstamps => hstamps⟩

theorem EveryStamp.dropDisk {c : Overflow K V} (h : EveryStamp p c) (k : K) :
    EveryStamp p (c.dropDisk k) := by
  refine h.mono (fun _ _ hget => hget) fun t' ht' => ?_
  obtain ⟨t, ht, rfl⟩ := Option.map_eq_some_iff.1 ht'
  exact ⟨t, ht, fun _ _ => stamps?_of_without⟩

theorem EveryStamp.atFront {c : Overflow K V} (h : EveryStamp p c) (k : K) {e : Entry V}
    (he : p e.stamps) : EveryStamp p (c.atFront k e) where
  memory k' e' hget := by
    have hget : (c.entries.insert k e).get? k' = some e' := hget
    rw [Table.get?_insert] at hget
    split at hget
    · rw [← Option.some.inj hget]
      exact he
    · exact h.memory k' e' hget
  disk := h.disk

theorem EveryStamp.spilled {c : Overflow K V} {w : World} {k : K} {e : Entry V}
    {s : Step (Overflow K V) (Eviction K V) Unit} (h : EveryStamp p c) (he : p e.stamps)
    (hs : Spilled c w k e s) : EveryStamp p s.state := by
  cases hs with
  | expired x hx => exact h.of_tiers rfl rfl
  | dropped hlive hdisk => exact h.of_tiers rfl rfl
  | unencodable hlive t hdisk fault hencode => exact h.of_tiers rfl rfl
  | refused hlive t hdisk bytes hencode haccepts =>
    have hwithout := h.dropDisk k
    rw [dropDisk_eq hdisk] at hwithout
    refine hwithout.mono (fun _ _ hget => hget) fun t' ht' => ⟨t.without k, rfl, ?_⟩
    rw [← Option.some.inj ht']
    exact fun _ _ hstamps => hstamps
  | written hlive t hdisk bytes hencode haccepts =>
    refine ⟨h.memory, fun t' ht' k' stamps hstamps => ?_⟩
    rw [← Option.some.inj ht', DiskTier.stamps?_withWritten] at hstamps
    split at hstamps
    · cases hstamps
    · split at hstamps
      · rw [← Option.some.inj hstamps]
        exact he
      · exact h.disk t hdisk k' stamps hstamps

theorem EveryStamp.sink {c : Overflow K V} {w : World}
    {s : Step (Overflow K V) (Eviction K V) Unit} (h : EveryStamp p c) (hs : Sink c w s)
    (hc : c.Sound) : EveryStamp p s.state := by
  cases hs with
  | @evict k weight rest e hpop hget =>
    exact (h.dropMemory k).spilled (h.memory k e hget) ((hc.toTidy.dropMemory k).spilled w k e)
  | @expireMemory k e x hget hx =>
    rw [Overflow.expireMemory, hget]
    exact (h.dropMemory k).of_tiers rfl rfl
  | @expireDisk t k x hdisk hx =>
    refine (h.dropDisk k).of_tiers rfl ?_
    rw [dropDisk_eq hdisk, ← (hc.disk t hdisk).remove_tier w.area k]
    rfl
  | @lose t k taken hdisk hlive htake hlost =>
    refine (h.dropDisk k).of_tiers rfl ?_
    rw [dropDisk_eq hdisk, ← DiskTier.take_tier htake]

theorem EveryStamp.sinks {c : Overflow K V} {w : World}
    {s : Step (Overflow K V) (Eviction K V) Unit} (h : EveryStamp p c) (hs : Sinks c w s)
    (hc : c.Sound) : EveryStamp p s.state :=
  hs.keepOfSound (P := fun c _ => EveryStamp p c) (fun _ _ _ hs hc h => h.sink hs hc) hc h

theorem EveryStamp.insert {c : Overflow K V} (h : EveryStamp p c) (hc : c.Sound) (w : World) (k : K)
    (value : Shared V) (hp : p (c.freshEntry w value).stamps) :
    EveryStamp p (c.insert w k value).state := by
  have hfront := (hc.dropBoth k).atFront (c.freshEntry w value)
  have hstored := ((h.dropMemory k).dropDisk k).atFront k hp
  rw [hc.insert_eq]
  exact (hstored.sinks (takeIn_sinks hfront (c.clearedWorld w k)) hfront).of_tiers rfl rfl

theorem EveryStamp.found {c : Overflow K V} {w : World} {k : K}
    {s : Step (Overflow K V) (Eviction K V) (Option (Shared V))} (h : EveryStamp p c)
    (htouched : ∀ stamps, p stamps → p (c.touched w stamps)) (hs : Found c w k s) (hc : c.Sound) :
    EveryStamp p s.state := by
  cases hs with
  | absent hmemory hdisk => exact h
  | gone hs => exact h.sink hs.sink hc
  | @hit e hget hlive =>
    have hused := h.atFront k (e := { e with stamps := c.touched w e.stamps })
      (htouched _ (h.memory k e hget))
    exact hused.of_tiers rfl rfl
  | @promoted t bytes stamps v hmemory hdisk hstamps hlive hcontent hread =>
    have hfront := (lifted_vacant hc hmemory hdisk).atFront
    have hlifted : EveryStamp p (c.lifted t k) := by
      refine (h.dropDisk k).of_tiers rfl ?_
      rw [dropDisk_eq hdisk]
      rfl
    have hstored := hlifted.atFront k
      (e := ⟨⟨w.nextId, v⟩, c.weigh v, c.touched w stamps⟩) (htouched _ (h.disk t hdisk k _ hstamps))
    exact hstored.sinks (takeIn_sinks (hfront _) _) (hfront _)

theorem EveryStamp.remove {c : Overflow K V} (h : EveryStamp p c) (hc : c.Sound) (w : World)
    (k : K) : EveryStamp p (c.remove w k).state := by
  rw [hc.remove_state]
  exact ((h.dropMemory k).dropDisk k).of_tiers rfl rfl

theorem everyStamp_close (c : Overflow K V) (w : World) : EveryStamp p (c.close w).state := by
  rw [close_state]
  refine ⟨nofun, fun t ht k stamps hstamps => ?_⟩
  obtain ⟨t₀, -, rfl⟩ := Option.map_eq_some_iff.1 ht
  cases hstamps

theorem EveryStamp.perform {c : Overflow K V} (h : EveryStamp p c) (hc : c.Sound) (w : World)
    (op : Op K V)
    (hcreate : p (.create w.now c.settings.timeToLive c.settings.timeToIdle))
    (htouched : ∀ stamps, p stamps → p (c.touched w stamps)) :
    EveryStamp p (c.perform w op).state := by
  cases op with
  | request r =>
    cases r with
    | insert k value => exact h.insert hc w k value hcreate
    | remove k => exact h.remove hc w k
    | get k =>
      have hfound := h.found htouched (find_found c w k) hc
      exact hfound.of_tiers rfl rfl
    | contains k => exact h
    | keys => exact h.sinks (purgeExpired_sinks hc w) hc
    | size => exact h.sinks (purgeExpired_sinks hc w) hc
  | purgeExpired => exact h.sinks (purgeExpired_sinks hc w) hc
  | close => exact everyStamp_close c w
  | outside change => exact h

theorem Built.everyStamp {b : Builder} {st : Storage K V} {w w' : World} {c : Overflow K V}
    (h : Built b st w c w') : EveryStamp p c := by
  cases h with
  | memoryOnly hpersistence => exact ⟨nofun, nofun⟩
  | overDisk hpersistence hplace hunwritable =>
    refine ⟨nofun, fun t ht k stamps hstamps => ?_⟩
    rw [← Option.some.inj ht] at hstamps
    cases hstamps

/-! ## Presence -/

/-- Without a time to live no entry expires at a set reading. -/
def Dated (c : Overflow K V) : Prop :=
  c.settings.timeToLive = none → EveryStamp (fun stamps => stamps.expiresAt = 0) c

theorem Dated.remove {c : Overflow K V} (h : c.Dated) (hc : c.Sound) (w : World) (k : K) :
    (c.remove w k).state.Dated := by
  intro hset
  rw [(hc.sameSetup_remove w k).settings] at hset
  exact (h hset).remove hc w k

theorem Dated.perform {c : Overflow K V} (h : c.Dated) (hc : c.Sound) (w : World) (op : Op K V) :
    (c.perform w op).state.Dated := by
  intro hset
  rw [(hc.sameSetup_perform w op).settings] at hset
  refine (h hset).perform hc w op ?_ fun stamps hstamps => ?_
  · rw [hset]
    rfl
  · unfold touched
    split
    · exact hstamps
    · exact hstamps

theorem dated_run {c : Overflow K V} {w : World} (hc : c.Sound) (h : c.Dated)
    (turns : List (Turn K V)) : (c.run w turns).state.Dated :=
  run_keeps (P := fun c _ _ => c.Dated) (Q := fun _ => True)
    (fun _ w _ op hc _ h => h.perform hc w op) (fun _ _ _ _ h => h) turns (fun _ _ => trivial) [] hc h

/-- The stamps of the entry of `k`, in whichever tier it is. -/
def stamps? (c : Overflow K V) (k : K) : Option Timestamps :=
  match c.entries.get? k with
  | some e => some e.stamps
  | none => c.disk.bind fun t => t.stamps? k

theorem stamps?_of_get? {c : Overflow K V} {k : K} {e : Entry V}
    (h : c.entries.get? k = some e) : c.stamps? k = some e.stamps := by
  rw [stamps?, h]

theorem stamps?_of_get?_eq_none {c : Overflow K V} {k : K} (h : c.entries.get? k = none) :
    c.stamps? k = c.disk.bind fun t => t.stamps? k := by
  rw [stamps?, h]

theorem isSome_stamps? (c : Overflow K V) (k : K) :
    (c.stamps? k).isSome = (c.inMemory k || c.onDisk k) := by
  unfold stamps? inMemory Table.contains onDisk
  cases c.entries.get? k with
  | some e => rfl
  | none =>
    cases c.disk with
    | none => rfl
    | some t => exact (t.contains_eq_isSome k).symm

theorem EveryStamp.of_stamps? {c : Overflow K V} (h : EveryStamp p c) {k : K} {stamps : Timestamps}
    (hstamps : c.stamps? k = some stamps) : p stamps := by
  unfold stamps? at hstamps
  split at hstamps
  · rename_i e hget
    rw [← Option.some.inj hstamps]
    exact h.memory k e hget
  · obtain ⟨t, ht, hstamps⟩ := Option.bind_eq_some_iff.1 hstamps
    exact h.disk t ht k stamps hstamps

/-- Whether stamps are within both timeouts. -/
def fresh (c : Overflow K V) (w : World) (stamps : Timestamps) : Bool :=
  (stamps.expiration w.now c.settings.timeToIdle).isNone

theorem Dated.fresh {c : Overflow K V} (h : c.Dated) (w : World) {k : K} {stamps : Timestamps}
    (hstamps : c.stamps? k = some stamps) (htimeless : c.timeless = true) :
    c.fresh w stamps = true := by
  rw [timeless, Bool.and_eq_true, Option.isNone_iff_eq_none, Option.isNone_iff_eq_none] at htimeless
  have hzero : stamps.expiresAt = 0 := (h htimeless.1).of_stamps? hstamps
  simp [Overflow.fresh, Timestamps.expiration, hzero, htimeless.2]

theorem Sound.contains_eq {c : Overflow K V} (h : c.Sound) (hdated : c.Dated) (w : World) (k : K) :
    c.contains w k = (c.stamps? k).any (c.fresh w) := by
  have hindex : c.keyIndex.contains k = (c.stamps? k).isSome :=
    (h.index k).trans (c.isSome_stamps? k).symm
  unfold contains
  rw [hindex]
  cases hstamps : c.stamps? k with
  | none => rfl
  | some stamps =>
    show (if c.timeless = true then true else _) = c.fresh w stamps
    split
    · rename_i htimeless
      exact (hdated.fresh w hstamps htimeless).symm
    · unfold stamps? at hstamps
      cases hget : c.entries.get? k with
      | some e =>
        rw [hget] at hstamps
        rw [← Option.some.inj hstamps]
        rfl
      | none =>
        rw [hget] at hstamps
        obtain ⟨t, ht, hstamps⟩ := Option.bind_eq_some_iff.1 hstamps
        rw [ht]
        dsimp only
        rw [DiskTier.contains_eq_isSome, DiskTier.expiration_eq, hstamps]
        rfl

/-! ## Removing -/

def expiredOnDisk (c : Overflow K V) (w : World) (k : K) : Bool :=
  (c.disk.bind fun t => t.expiration w.now c.settings.timeToIdle k).isSome

theorem Sound.remove_answer {c : Overflow K V} (h : c.Sound) (hdated : c.Dated) (w : World) (k : K)
    (hk : c.expiredOnDisk w k = false) : (c.remove w k).answer = c.contains w k := by
  rw [h.contains_eq hdated]
  have hremoved := h.removed w k
  generalize c.remove w k = s at hremoved ⊢
  cases hremoved with
  | absent hmemory hdisk =>
    have hnone : c.stamps? k = none := by
      rw [← Option.not_isSome_iff_eq_none, isSome_stamps?, hmemory, hdisk]
      exact Bool.false_ne_true
    rw [hnone]
    rfl
  | @expired e x hget hx =>
    have hexpired : e.stamps.expiration w.now c.settings.timeToIdle = some x := hx
    simp [stamps?_of_get? hget, fresh, hexpired]
  | @fromMemory e hget hlive =>
    have hfresh : e.stamps.expiration w.now c.settings.timeToIdle = none := hlive
    simp [stamps?_of_get? hget, fresh, hfresh]
  | @fromDisk t hmemory hdisk hcontains =>
    rw [DiskTier.contains_eq_isSome, Option.isSome_iff_exists] at hcontains
    obtain ⟨stamps, hstamps⟩ := hcontains
    have hfresh : stamps.expiration w.now c.settings.timeToIdle = none := by
      rw [expiredOnDisk, hdisk, Option.bind_some, DiskTier.expiration_eq, hstamps] at hk
      exact Option.not_isSome_iff_eq_none.1 (Bool.eq_false_iff.1 hk)
    simp [stamps?_of_get?_eq_none (get?_of_not_inMemory hmemory), hdisk, hstamps, fresh, hfresh]

theorem now_clearedWorld (c : Overflow K V) (w : World) (k : K) : (c.clearedWorld w k).now = w.now := by
  unfold clearedWorld
  split <;> rfl

theorem nextId_clearedWorld (c : Overflow K V) (w : World) (k : K) :
    (c.clearedWorld w k).nextId = w.nextId := by
  unfold clearedWorld
  split <;> rfl

theorem Sound.stamps?_remove {c : Overflow K V} (h : c.Sound) (w : World) (k k' : K) :
    (c.remove w k).state.stamps? k' = if k' = k then none else c.stamps? k' := by
  have hmemory : ((c.dropMemory k).dropDisk k).entries.get? k' =
      if k' = k then none else c.entries.get? k' := Table.get?_erase _ _ _
  have hdisk : (((c.dropMemory k).dropDisk k).disk.bind fun t => t.stamps? k') =
      if k' = k then none else c.disk.bind fun t => t.stamps? k' := by
    show ((c.disk.map fun t => t.without k).bind _) = _
    cases c.disk with
    | none => simp
    | some t => exact t.stamps?_without k k'
  rw [h.remove_state]
  show ((c.dropMemory k).dropDisk k).stamps? k' = _
  by_cases hk : k' = k
  · rw [if_pos hk] at hmemory hdisk ⊢
    exact (stamps?_of_get?_eq_none hmemory).trans hdisk
  · rw [if_neg hk] at hmemory hdisk ⊢
    cases hget : c.entries.get? k' with
    | some e =>
      rw [stamps?_of_get? hget]
      exact stamps?_of_get? (hmemory.trans hget)
    | none =>
      rw [stamps?_of_get?_eq_none hget, ← hdisk]
      exact stamps?_of_get?_eq_none (hmemory.trans hget)

theorem Sound.contains_remove {c : Overflow K V} (h : c.Sound) (hdated : c.Dated) (w : World)
    (k k' : K) : (c.remove w k).state.contains (c.remove w k).world k' =
      (decide (k' ≠ k) && c.contains w k') := by
  have hfresh : (c.remove w k).state.fresh (c.remove w k).world = c.fresh w := by
    funext stamps
    unfold fresh
    rw [(h.sameSetup_remove w k).settings, h.remove_world, now_clearedWorld]
  rw [(h.remove w k).contains_eq (hdated.remove h w k), h.contains_eq hdated, h.stamps?_remove,
    hfresh]
  by_cases hk : k' = k
  · simp [hk]
  · simp [hk]

theorem peek_congr {c c' : Overflow K V} {w w' : World} {k : K}
    (hsettings : c'.settings = c.settings) (hnow : w'.now = w.now) (hnextId : w'.nextId = w.nextId)
    (hmemory : c'.entries.get? k = c.entries.get? k)
    (hdisk : (c'.disk.bind fun t => t.view? c.settings.codec w'.area k) =
      c.disk.bind fun t => t.view? c.settings.codec w.area k) : c'.peek w' k = c.peek w k := by
  unfold peek expiration
  rw [hmemory, hsettings, hnow, hnextId, hdisk]

theorem Sound.get_remove {c : Overflow K V} (h : c.Sound) (w : World) (k k' : K) :
    ((c.remove w k).state.get (c.remove w k).world k').answer =
      if k' = k then none else (c.get w k').answer := by
  have hvacant := h.dropBoth k
  rw [get_answer, get_answer, h.remove_state, h.remove_world]
  show ((c.dropMemory k).dropDisk k).peek (c.clearedWorld w k) k' = _
  by_cases hk : k' = k
  · rw [if_pos hk, hk, ← get_answer, get_eq, find_of_absent _ hvacant.notInMemory hvacant.notOnDisk]
    rfl
  · rw [if_neg hk]
    refine peek_congr rfl (c.now_clearedWorld w k) (c.nextId_clearedWorld w k) ?_ ?_
    · exact (Table.get?_erase _ _ _).trans (if_neg hk)
    · exact (h.diskView?_cleared w k k').trans (if_neg hk)

def seen (c : Overflow K V) (w : World) (k : K) : Bool × Option (Shared V) :=
  (c.contains w k, (c.get w k).answer)

theorem Sound.seen_remove {c : Overflow K V} (h : c.Sound) (hdated : c.Dated) (w : World)
    (k k' : K) : (c.remove w k).state.seen (c.remove w k).world k' =
      if k' = k then (false, none) else c.seen w k' := by
  unfold seen
  rw [h.contains_remove hdated, h.get_remove]
  by_cases hk : k' = k
  · simp [hk]
  · simp [hk]

end CacheLayer.Overflow
