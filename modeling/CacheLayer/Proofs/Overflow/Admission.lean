import CacheLayer.Proofs.Expiring
import CacheLayer.Proofs.Overflow.Presence
import CacheLayer.Proofs.Overflow.SingleList
import CacheLayer.Proofs.Trimming

/-!
# Which entries leave when one is admitted

An entry that is stored, or read back from disk, comes first in memory. From there the two tiers are
filled as if at once: memory keeps the longest front of its list that is within its bound, the disk
keeps the longest front of what memory gave up followed by its own list, and what is behind that is
gone. The loops pop one key, write it and trim the disk before they pop the next.

* `DiskTier.Sound.listed_cuts` : one write cuts the list of the disk tier.
* `spillAll_cuts` : any number of writes are one cut.
* `Sound.settled_cuts` : both cuts, of the list of the memory tier and of the rest before that of the
  disk tier.
* `used_run` : no entry was used at a later reading than the present one.
* `admits_run` : an insertion, and a look-up that the disk serves, at any time.
-/

namespace CacheLayer

variable {K : Type u} {V : Type v}

def Codec.Encodes (codec : Codec V) (v : V) : Prop := ∃ bytes, codec.encode v = .ok bytes

/-- The last use does not lie ahead. -/
def Timestamps.UsedBy (now : Nat) (stamps : Timestamps) : Prop := stamps.lastAccessed ≤ saturate now

theorem Timestamps.usedBy_create (now : Nat) (timeToLive timeToIdle : Option Duration) :
    (Timestamps.create now timeToLive timeToIdle).UsedBy now := by
  show (if timeToIdle.isSome then saturate now else 0) ≤ saturate now
  split
  · exact Nat.le_refl _
  · exact Nat.zero_le _

theorem Timestamps.UsedBy.touch {now : Nat} {stamps : Timestamps} (h : stamps.UsedBy now)
    {timeToIdle : Option Duration} (hlive : stamps.expiration now timeToIdle = none) :
    (stamps.touch now).expiration now timeToIdle = none := by
  have h : stamps.lastAccessed ≤ saturate now := h
  unfold Timestamps.expiration Timestamps.touch at *
  split at hlive
  · cases hlive
  · rename_i hset
    rw [if_neg hset]
    cases timeToIdle with
    | none => rfl
    | some d =>
      dsimp only at hlive ⊢
      split at hlive
      · cases hlive
      · rename_i hidle
        rw [if_neg]
        unfold saturate at *
        omega

variable [DecidableEq K]

def Recency.others (r : Recency K) (k : K) : List (K × Nat) := r.items.filter fun e => decide (e.1 ≠ k)

theorem Recency.others_of_not_mem {r : Recency K} {k : K} (hk : k ∉ r.keys) :
    r.others k = r.items := by
  rw [others, ← items_remove, remove_of_not_mem hk]

theorem Recency.items_remove_eq_others (r : Recency K) (k : K) : (r.remove k).items = r.others k :=
  items_remove r k

theorem Recency.items_pushFront (r : Recency K) (k : K) (n : Nat) :
    (r.pushFront k n).items = (k, n) :: r.others k := by
  rw [← items_remove_eq_others]
  rfl

theorem Recency.others_remove (r : Recency K) (k : K) : (r.remove k).others k = r.others k := by
  have hk : k ∉ (r.remove k).keys := fun hk => ((mem_keys_remove r k k).1 hk).1 rfl
  rw [others_of_not_mem hk, items_remove_eq_others]

/-- A write puts the entry first and cuts the list. -/
theorem DiskTier.Sound.listed_cuts {t : DiskTier K} (h : t.Sound) (k : K) (bytes : Nat) :
    ∃ gone, t.bound.Cuts ((k, bytes) :: t.order.others k) (t.listed k bytes).1.items gone ∧
      (t.listed k bytes).2 = (gone.map Prod.fst).reverse := by
  obtain ⟨gone, hcuts, hgone⟩ := (h.order.pushFront k bytes).trim_cuts t.bound (Nat.le_refl _)
  rw [Recency.items_pushFront] at hcuts
  exact ⟨gone, hcuts, hgone⟩

theorem DiskTier.of_contains_withWritten {t : DiskTier K} {k k' : K} {bytes : Nat}
    {stamps : Timestamps} (h : (t.withWritten k bytes stamps).contains k' = true) :
    k' = k ∨ t.contains k' = true := by
  rw [contains_eq_isSome, stamps?_withWritten] at h
  split at h
  · cases h
  · split at h
    · rename_i hk
      exact .inl hk
    · exact .inr ((t.contains_eq_isSome k').trans h)

namespace Overflow

/-- The keys are told to be pushed off the disk, the last one first. -/
def pushedOffEvents (gone : List (K × Nat)) : List (Eviction K V) :=
  (gone.map fun e => (⟨e.1, none, .capacity⟩ : Eviction K V)).reverse

omit [DecidableEq K] in
theorem pushedOffEvents_append (gone gone' : List (K × Nat)) :
    (pushedOffEvents (gone' ++ gone) : List (Eviction K V)) =
      pushedOffEvents gone ++ pushedOffEvents gone' := by
  rw [pushedOffEvents, List.map_append, List.reverse_append]
  rfl

omit [DecidableEq K] in
theorem map_reverse_eq_pushedOffEvents (gone : List (K × Nat)) :
    ((gone.map Prod.fst).reverse.map fun k => (⟨k, none, .capacity⟩ : Eviction K V)) =
      pushedOffEvents gone := by
  rw [List.map_reverse, List.map_map]
  rfl

/-- The entry is not expired, and its value takes so many bytes on disk. -/
def Ready (c : Overflow K V) (w : World) (e : Entry V) (size : Nat) : Prop :=
  c.expiration w e = none ∧
    ∃ bytes, c.settings.codec.encode e.value.value = .ok bytes ∧ bytes.length = size

/-! ## The loops -/

theorem Spilled.cuts {c : Overflow K V} {w : World} {t : DiskTier K} {k : K} {e : Entry V} {n : Nat}
    {s : Step (Overflow K V) (Eviction K V) Unit} (hs : Spilled c w k e s) (hdisk : c.disk = some t)
    (ht : t.Sound) (hhealthy : t.Healthy w.area) (hk : t.contains k = false)
    (hready : c.Ready w e n) :
    s.state.disk = some (t.withWritten k n e.stamps) ∧
      ∃ gone, t.bound.Cuts ((k, n) :: t.order.items) (t.listed k n).1.items gone ∧
        s.log = pushedOffEvents gone := by
  obtain ⟨hlive, bytes, hencode, rfl⟩ := hready
  obtain ⟨gone, hcuts, hgone⟩ := ht.listed_cuts k bytes.length
  have hlisted : k ∉ t.order.keys := by
    rw [← ht.keys, hk]
    exact Bool.false_ne_true
  rw [Recency.others_of_not_mem hlisted] at hcuts
  cases hs with
  | expired x hx => cases hlive.symm.trans hx
  | dropped hlive' hnone => cases hdisk.symm.trans hnone
  | unencodable hlive' t' hdisk' fault hfault => cases hencode.symm.trans hfault
  | refused hlive' t' hdisk' bytes' hencode' haccepts =>
    obtain rfl := Option.some.inj (hdisk.symm.trans hdisk')
    cases hhealthy.accepts.symm.trans haccepts
  | written hlive' t' hdisk' bytes' hencode' haccepts =>
    obtain rfl := Option.some.inj (hdisk.symm.trans hdisk')
    obtain rfl := Except.ok.inj (hencode.symm.trans hencode')
    refine ⟨rfl, gone, hcuts, ?_⟩
    show (t.listed k bytes.length).2.map _ = _
    rw [hgone, map_reverse_eq_pushedOffEvents]

/-- Entries that are written one after the other, each in front of the one before, come to lie on disk
as if they had been put there at once. -/
theorem spillAll_cuts (size : K → Nat) (ks : List K) {c : Overflow K V} {w : World} {t : DiskTier K}
    (hdisk : c.disk = some t) (ht : t.Sound) (hfits : t.bound.exceededBy t.order = false)
    (hhealthy : t.Healthy w.area) (hks : ks.Nodup) (hnot : ∀ k ∈ ks, t.contains k = false)
    (hready : ∀ k ∈ ks, ∃ e, c.entries.get? k = some e ∧ c.Ready w e (size k)) :
    ∃ t' gone, (c.spillAll w ks).state.disk = some t' ∧
      t.bound.Cuts (ks.reverse.map (fun k => (k, size k)) ++ t.order.items) t'.order.items gone ∧
      (c.spillAll w ks).log = pushedOffEvents gone := by
  induction ks generalizing c w t with
  | nil => exact ⟨t, [], hdisk, ((ht.order.exceededBy_eq_false_iff t.bound).1 hfits).cuts, rfl⟩
  | cons k ks ih =>
    obtain ⟨hk, hks⟩ := List.nodup_cons.1 hks
    obtain ⟨e, hget, hfirst⟩ := hready k (by simp)
    have hspilled := spilled (c := { c with entries := c.entries.erase k })
      (fun t' ht' => Option.some.inj (hdisk.symm.trans ht') ▸ ht) w k e
    rw [spillAll]
    simp only [hget]
    generalize Overflow.spill { c with entries := c.entries.erase k } w k e = s at hspilled ⊢
    obtain ⟨hdisk', gone, hcuts, hlog⟩ :=
      hspilled.cuts hdisk ht hhealthy (hnot k (by simp)) hfirst
    -- the later keys are as they were: in memory, and not on disk
    have hlater : ∀ k' ∈ ks, (t.withWritten k (size k) e.stamps).contains k' = false := by
      intro k' hk'
      by_contra hcontains
      rcases DiskTier.of_contains_withWritten (Bool.not_eq_false _ ▸ hcontains) with rfl | hold
      · exact hk hk'
      · rw [hnot k' (by simp [hk'])] at hold
        cases hold
    have hstill : ∀ k' ∈ ks, ∃ e', s.state.entries.get? k' = some e' ∧
        s.state.Ready s.world e' (size k') := by
      intro k' hk'
      obtain ⟨e', hget', hready'⟩ := hready k' (by simp [hk'])
      have hne : k' ≠ k := fun heq => hk (heq ▸ hk')
      refine ⟨e', ?_, ?_⟩
      · rw [hspilled.entries, Table.get?_erase, if_neg hne, hget']
      · unfold Ready Overflow.expiration at *
        rw [hspilled.sameSetup.settings, hspilled.now]
        exact hready'
    obtain ⟨t', gone', hdone, hcuts', hlog'⟩ := ih hdisk' (ht.withWritten k (size k) e.stamps)
      (withWritten_fits ht k (size k) e.stamps) (hhealthy.congr hspilled.sameTiers rfl) hks hlater
      hstill
    refine ⟨t', gone' ++ gone, hdone, ?_, ?_⟩
    · have hboth := hcuts.after hcuts'
      rw [← List.singleton_append, ← List.append_assoc] at hboth
      rw [List.reverse_cons, List.map_append]
      exact hboth
    · show s.log ++ _ = _
      rw [hlog, hlog', pushedOffEvents_append]

/-- What does not fit into memory goes to the disk, in front of what is there, and what does not fit
there is gone. -/
theorem Sound.settled_cuts (size : K → Nat) {c : Overflow K V} {w : World} {t : DiskTier K}
    (h : c.Sound) (hdisk : c.disk = some t) (hfits : t.bound.exceededBy t.order = false)
    (hhealthy : t.Healthy w.area)
    (hready : ∀ k e, c.entries.get? k = some e → c.Ready w e (size k)) :
    ∃ beyond t' gone, (c.settled w).state.disk = some t' ∧
      c.settings.memoryBound.Cuts c.order.items (c.settled w).state.order.items beyond ∧
      t.bound.Cuts (beyond.map (fun o => (o.1, size o.1)) ++ t.order.items) t'.order.items gone ∧
      (gone.map Prod.fst).Nodup ∧ (c.settled w).log = pushedOffEvents gone := by
  obtain ⟨beyond, hcuts, hbeyond⟩ := h.order.trim_cuts c.settings.memoryBound (Nat.le_refl _)
  have hnodup := hcuts.nodup_gone h.order.nodup_keys
  have hin : ∀ k ∈ beyond.map Prod.fst, c.inMemory k = true := by
    intro k hk
    rw [← h.mem_order]
    show k ∈ c.order.items.map Prod.fst
    rw [← hcuts.map_fst]
    exact List.mem_append_right _ hk
  have hnot : ∀ k ∈ beyond.map Prod.fst, t.contains k = false := by
    intro k hk
    rw [← onDisk_of_disk hdisk]
    exact h.apart k (hin k hk)
  have hspill := spillAll_cuts size (beyond.map Prod.fst).reverse
    (c := { c with order :=
      (Recency.trim c.settings.memoryBound.exceededBy c.order.size c.order).1 }) (w := w) hdisk
    (h.disk t hdisk) hfits hhealthy (List.nodup_reverse.2 hnodup)
    (fun k hk => hnot k (List.mem_reverse.1 hk)) ?_
  · obtain ⟨t', gone, hdone, hcuts', hlog⟩ := hspill
    rw [List.reverse_reverse, List.map_map] at hcuts'
    -- what comes to the disk was not there, so no key is in the whole list twice
    have hboth : (beyond.map Prod.fst ++ t.order.keys).Nodup := by
      refine List.nodup_append'.2 ⟨hnodup, (h.disk t hdisk).order.nodup_keys, fun k hk hlisted => ?_⟩
      rw [← (h.disk t hdisk).keys, hnot k hk] at hlisted
      cases hlisted
    have honce : (gone.map Prod.fst).Nodup := by
      refine hcuts'.nodup_gone ?_
      rw [List.map_append, List.map_map]
      exact hboth
    unfold settled
    rw [hbeyond, spillAll_order]
    exact ⟨beyond, t', gone, hdone, hcuts, hcuts', honce, hlog⟩
  · intro k hk
    obtain ⟨e, he⟩ := Table.get?_of_contains (hin k (List.mem_reverse.1 hk))
    exact ⟨e, he, hready k e he⟩

theorem takeIn_cuts (size : K → Nat) {c : Overflow K V} {w : World} {t : DiskTier K} {k : K}
    {e : Entry V} (h : c.Vacant k) (hdisk : c.disk = some t)
    (hfits : t.bound.exceededBy t.order = false) (hhealthy : t.Healthy w.area)
    (hready : ∀ k' e', (c.atFront k e).entries.get? k' = some e' → c.Ready w e' (size k')) :
    ∃ beyond t' gone, (c.takeIn w k e).state.disk = some t' ∧
      c.settings.memoryBound.Cuts ((k, e.weight) :: c.order.others k)
        (c.takeIn w k e).state.order.items beyond ∧
      t.bound.Cuts (beyond.map (fun o => (o.1, size o.1)) ++ t.order.items) t'.order.items gone ∧
      (gone.map Prod.fst).Nodup ∧ (c.takeIn w k e).log = pushedOffEvents gone := by
  have hsettled := (h.atFront e).settled_cuts size hdisk hfits hhealthy hready
  rw [← takeIn_eq_settled, show (c.atFront k e).order.items = _ from
    c.order.items_pushFront k e.weight] at hsettled
  exact hsettled

/-! ## Admissions -/

def encodedSize (c : Overflow K V) (v : V) : Nat :=
  match c.settings.codec.encode v with
  | .ok bytes => bytes.length
  | .error _ => 0

/-- The bytes that the value of `k'` takes on disk, where `k` has the value `v`. -/
def diskWeight (c : Overflow K V) (k : K) (v : V) (k' : K) : Nat :=
  if k' = k then c.encodedSize v
  else ((c.entries.get? k').map fun e => c.encodedSize e.value.value).getD 0

/-- From `c` over the tier `t`, `s` admits `v` under `k`: memory gives `beyond` up, which leaves `t'` on
disk and `gone` nowhere. -/
structure Admission (c : Overflow K V) (t : DiskTier K) (k : K) (v : V)
    (s : Step (Overflow K V) (Eviction K V) α) (beyond : List (K × Nat)) (t' : DiskTier K)
    (gone : List (K × Nat)) : Prop where
  disk : s.state.disk = some t'
  /-- Memory keeps the longest front of `k` and its other keys that fits. -/
  memoryCut : c.settings.memoryBound.Cuts ((k, c.weigh v) :: c.order.others k)
    s.state.order.items beyond
  /-- The disk keeps the longest front of the rest and its own other keys that fits. -/
  diskCut : t.bound.Cuts
    (beyond.map (fun e => (e.1, c.diskWeight k v e.1)) ++ t.order.others k) t'.order.items gone
  /-- Every other key is gone, each once, -/
  once : (gone.map Prod.fst).Nodup
  /-- and that is all that is told, the least recent one first. -/
  log_eq : s.log = pushedOffEvents gone

/-- The tier `t` takes whatever it is given, and the entries in memory could all go there: none is
expired, and every value can be written. -/
structure Calm (c : Overflow K V) (w : World) (t : DiskTier K) : Prop where
  disk : c.disk = some t
  healthy : t.Healthy w.area
  live : ∀ k e, c.entries.get? k = some e → c.expiration w e = none
  encodes : ∀ k e, c.entries.get? k = some e → c.settings.codec.Encodes e.value.value

omit [DecidableEq K] in
theorem ready_of_encodes {c : Overflow K V} {w : World} {e : Entry V}
    (hlive : c.expiration w e = none) (hencodes : c.settings.codec.Encodes e.value.value) :
    c.Ready w e (c.encodedSize e.value.value) := by
  obtain ⟨bytes, hencode⟩ := hencodes
  exact ⟨hlive, bytes, hencode, by simp only [encodedSize, hencode]⟩

theorem Calm.ready {c d : Overflow K V} {w w' : World} {t : DiskTier K} {k : K} {e : Entry V}
    (h : c.Calm w t) (hsettings : d.settings = c.settings) (hnow : w'.now = w.now)
    (hlive : c.expiration w e = none) (hencodes : c.settings.codec.Encodes e.value.value)
    (hothers : ∀ k', k' ≠ k → d.entries.get? k' = c.entries.get? k') (k' : K) (e' : Entry V)
    (hget : (d.atFront k e).entries.get? k' = some e') :
    d.Ready w' e' (c.diskWeight k e.value.value k') := by
  have hget : (d.entries.insert k e).get? k' = some e' := hget
  have hready : c.Ready w e' (c.diskWeight k e.value.value k') := by
    rw [Table.get?_insert] at hget
    unfold diskWeight
    split at hget
    · rename_i hk
      rw [if_pos hk, ← Option.some.inj hget]
      exact ready_of_encodes hlive hencodes
    · rename_i hk
      rw [hothers k' hk] at hget
      rw [if_neg hk, hget]
      exact ready_of_encodes (h.live k' e' hget) (h.encodes k' e' hget)
  unfold Ready Overflow.expiration at *
  rw [hsettings, hnow]
  exact hready

theorem Calm.admits_insert {c : Overflow K V} {w : World} {t : DiskTier K} (h : c.Calm w t)
    (hc : c.Sound) (hfits : c.Fits) (k : K) (value : Shared V)
    (hlive : c.expiration w (c.freshEntry w value) = none)
    (hencodes : c.settings.codec.Encodes value.value) :
    ∃ beyond t' gone, Admission c t k value.value (c.insert w k value) beyond t' gone := by
  have hdisk : ((c.dropMemory k).dropDisk k).disk = some (t.without k) := by
    show c.disk.map _ = _
    rw [h.disk]
    rfl
  have hroom : (t.without k).bound.exceededBy (t.without k).order = false :=
    Recency.not_exceededBy_remove (hfits.disk t h.disk) k
  have hhealthy : (t.without k).Healthy (c.clearedWorld w k).area :=
    h.healthy.congr (clearedWorld_sameTiers c w k) rfl
  have hothers : ∀ k', k' ≠ k →
      ((c.dropMemory k).dropDisk k).entries.get? k' = c.entries.get? k' := fun k' hk' =>
    (Table.get?_erase c.entries k k').trans (if_neg hk')
  obtain ⟨beyond, t', gone, hdisk', hmemory, hcuts, honce, hlog⟩ :=
    takeIn_cuts (c.diskWeight k value.value) (hc.dropBoth k) hdisk hroom hhealthy
      (h.ready (e := c.freshEntry w value) rfl (c.now_clearedWorld w k) hlive hencodes hothers)
  refine ⟨beyond, t', gone, ?_⟩
  rw [hc.insert_eq]
  refine ⟨hdisk', ?_, ?_, honce, hlog⟩
  · rw [← Recency.others_remove]
    exact hmemory
  · rw [← Recency.items_remove_eq_others]
    exact hcuts

theorem Calm.admits_get {c : Overflow K V} {w : World} {t : DiskTier K} (h : c.Calm w t)
    (hc : c.Sound) (hfits : c.Fits) (hused : c.EveryStamp (Timestamps.UsedBy w.now)) {k : K}
    {value : Shared V} (hk : t.contains k = true) (hanswer : (c.get w k).answer = some value)
    (hencodes : c.settings.codec.Encodes value.value) :
    ∃ beyond t' gone, Admission c t k value.value (c.get w k) beyond t' gone := by
  have hfound := find_found c w k
  have hanswer : (c.find w k).answer = some value := hanswer
  rw [get_eq]
  generalize c.find w k = s at hfound hanswer ⊢
  cases hfound with
  | absent hmemory hnone => cases hanswer
  | gone hs => cases hanswer
  | @hit e hget hlive =>
    have hnot := hc.not_onDisk hget
    rw [onDisk_of_disk h.disk, hk] at hnot
    cases hnot
  | @promoted t₀ bytes stamps v hmemory hdisk hstamps hlive hcontent hread =>
    obtain rfl := Option.some.inj (h.disk.symm.trans hdisk)
    obtain rfl := Option.some.inj hanswer
    have hroom : (t.without k).bound.exceededBy (t.without k).order = false :=
      Recency.not_exceededBy_remove (hfits.disk t h.disk) k
    have hhealthy : (t.without k).Healthy (t.deleteSlot w.area k).2 :=
      h.healthy.congr (t.deleteSlot_sameTiers w.area k) rfl
    have hlive' : c.expiration w ⟨⟨w.nextId, v⟩, c.weigh v, c.touched w stamps⟩ = none := by
      show (c.touched w stamps).expiration w.now c.settings.timeToIdle = none
      unfold touched
      split
      · exact (hused.disk t h.disk k stamps hstamps).touch hlive
      · exact hlive
    obtain ⟨beyond, t', gone, hdisk', hmemory', hcuts, honce, hlog⟩ :=
      takeIn_cuts (c := c.lifted t k) (w := (World.share
          { w with area := (t.deleteSlot w.area k).2 } v).2) (c.diskWeight k v)
        (lifted_vacant hc hmemory h.disk) rfl hroom hhealthy
        (h.ready (d := c.lifted t k) rfl rfl hlive' hencodes fun k' _ => rfl)
    refine ⟨beyond, t', gone, hdisk', hmemory', ?_, honce, hlog⟩
    rw [← Recency.items_remove_eq_others]
    exact hcuts

/-! ## Runs -/

theorem used_run {c : Overflow K V} {w : World} (hc : c.Sound)
    (h : c.EveryStamp (Timestamps.UsedBy w.now)) (turns : List (Turn K V)) :
    (c.run w turns).state.EveryStamp (Timestamps.UsedBy (c.run w turns).world.now) := by
  refine run_keeps (P := fun c w _ => c.EveryStamp (Timestamps.UsedBy w.now)) (Q := fun _ => True)
    (fun c w _ op hc _ h => ?_) (fun c w _ wait h => ?_) turns (fun _ _ => trivial) [] hc h
  · rw [(hc.around_perform w op).now]
    refine h.perform hc w op ?_ fun stamps hstamps => ?_
    · exact Timestamps.usedBy_create w.now _ _
    · unfold touched
      split
      · exact Nat.le_refl (saturate w.now)
      · exact hstamps
  · have hle := Timestamps.saturate_le (Nat.le_add_right w.now wait)
    exact ⟨fun k e hget => Nat.le_trans (h.memory k e hget) hle,
      fun t ht k stamps hstamps => Nat.le_trans (h.disk t ht k stamps hstamps) hle⟩

/-- Whatever was done to a cache over disk: while its directory takes every file, and no entry in memory
is expired or cannot be written, an insertion and a look-up that the disk serves admit their value,
which is not expired and can be written either. -/
theorem admits_run (b : Builder) (st : Storage K V) {w w' : World} {c : Overflow K V}
    (hbuilt : b.buildOverflow st w = (.ok c, w')) (turns : List (Turn K V)) {t : DiskTier K}
    (hcalm : (c.run w' turns).state.Calm (c.run w' turns).world t) (k : K) (value : Shared V)
    (hencodes : st.codec.Encodes value.value) :
    ((c.run w' turns).state.expiration (c.run w' turns).world
        ((c.run w' turns).state.freshEntry (c.run w' turns).world value) = none →
      ∃ beyond t' gone, Admission (c.run w' turns).state t k value.value
        ((c.run w' turns).state.insert (c.run w' turns).world k value) beyond t' gone) ∧
    (t.contains k = true →
      ((c.run w' turns).state.get (c.run w' turns).world k).answer = some value →
      ∃ beyond t' gone, Admission (c.run w' turns).state t k value.value
        ((c.run w' turns).state.get (c.run w' turns).world k) beyond t' gone) := by
  have hstart := Builder.built hbuilt
  have hsound := sound_run (w := w') turns hstart.sound
  have hfits := fits_run (w := w') turns hstart.sound hstart.fits
  have hused := used_run (w := w') hstart.sound hstart.everyStamp turns
  have hcodec : (c.run w' turns).state.settings.codec.Encodes value.value := by
    rw [(sameSetup_run (w := w') turns hstart.sound).settings, hstart.setup.1]
    exact hencodes
  exact ⟨fun hlive => hcalm.admits_insert hsound hfits k value hlive hcodec,
    fun hk hanswer => hcalm.admits_get hsound hfits hused hk hanswer hcodec⟩

/-- A cache over disk in which the key 2 has pushed the key 1 out of memory. -/
def fullPair : Step (Overflow Nat UInt8) (Record Nat UInt8) Unit :=
  (pairCache none none).run pairWorld
    [⟨0, .request (.insert 1 ⟨0, 7⟩)⟩, ⟨0, .request (.insert 2 ⟨1, 8⟩)⟩]

def fullPairTier : DiskTier Nat :=
  ⟨some ⟨0, ["d"], "pair-"⟩, .insert .empty 1 ⟨0, ⟨0, 0⟩⟩, ⟨[(1, 1)], 1⟩, .entries 1, 1⟩

theorem calm_fullPair : fullPair.state.Calm fullPair.world fullPairTier := by
  have hentries : fullPair.state.entries = .insert .empty 2 ⟨⟨1, 8⟩, 1, ⟨0, 0⟩⟩ := rfl
  refine ⟨rfl, ⟨_, rfl, rfl, fun _ => rfl⟩, fun k e hget => ?_, fun k e hget => ⟨_, rfl⟩⟩
  rw [hentries, Table.get?_insert] at hget
  split at hget
  · rw [← Option.some.inj hget]
    rfl
  · cases hget

/-- A third key pushes the first off the disk, and the first comes back from there. -/
theorem admits_run_pair :
    (∃ beyond t' gone, Admission fullPair.state fullPairTier 3 9
      (fullPair.state.insert fullPair.world 3 ⟨2, 9⟩) beyond t' gone) ∧
    ∃ beyond t' gone, Admission fullPair.state fullPairTier 1 7
      (fullPair.state.get fullPair.world 1) beyond t' gone :=
  ⟨(admits_run (pairBuilder none none) byteStorage (pair_built none none) _ calm_fullPair 3 ⟨2, 9⟩
      ⟨_, rfl⟩).1 rfl,
    (admits_run (pairBuilder none none) byteStorage (pair_built none none) _ calm_fullPair 1
      ⟨fullPair.world.nextId, 7⟩ ⟨_, rfl⟩).2 (by decide) (by decide)⟩

end Overflow

end CacheLayer
