import CacheLayer.Proofs.Overflow.Removal

/-!
# A purge as one step

A purge of a two-tier cache collects the expired keys and drops them one by one, each from two tables,
a recency list, the key index and, where it has one, with its file. It comes to one step: every part
of the cache keeps what is not expired.

* `Overflow.keep` : the cache that keeps the keys of a kind.
* `Overflow.expelled` : what it comes to that a list of expired keys is dropped, and
  `expelled_append` that this may be done in parts.
* `Sound.expireMemory_eq`, `Sound.expireDisk_eq` : one key.
* `Sound.purgeExpired_eq` : the purge.
-/

namespace CacheLayer

variable {K : Type u} {V : Type v}

/-- The areas are the same, but that the files of a kind are deleted from the private directories. -/
structure FileArea.Without (gone : Nat × String → Prop) (a a' : FileArea) : Prop where
  outside : a' = { a with tiers := a'.tiers }
  places : ∀ number, (a'.tiers.get? number).map (fun d => (d.parent, d.stem)) =
    (a.tiers.get? number).map fun d => (d.parent, d.stem)
  deleted : ∀ file, gone file → a'.read file.1 file.2 = none
  spared : ∀ file, ¬ gone file → a'.read file.1 file.2 = a.read file.1 file.2

namespace FileArea.Without

variable {gone gone' : Nat × String → Prop} {a a' a'' : FileArea}

theorem refl (h : ∀ file, ¬ gone file) (a : FileArea) : Without gone a a :=
  ⟨rfl, fun _ => rfl, fun file hfile => (h file hfile).elim, fun _ _ => rfl⟩

theorem congr (h : Without gone a a') (hgone : ∀ file, gone file ↔ gone' file) :
    Without gone' a a' :=
  ⟨h.outside, h.places, fun file hfile => h.deleted file ((hgone file).2 hfile),
    fun file hfile => h.spared file fun hgone' => hfile ((hgone file).1 hgone')⟩

theorem trans (h : Without gone a a') (h' : Without gone' a' a'') :
    Without (fun file => gone file ∨ gone' file) a a'' where
  outside := by
    rw [h'.outside, h.outside]
  places number := (h'.places number).trans (h.places number)
  deleted file hfile := by
    by_cases hlater : gone' file
    · exact h'.deleted file hlater
    · rw [h'.spared file hlater]
      exact h.deleted file (hfile.resolve_right hlater)
  spared file hfile := by
    rw [h'.spared file fun hlater => hfile (.inr hlater)]
    exact h.spared file fun hfirst => hfile (.inl hfirst)

theorem delete (a : FileArea) (file : Nat × String) :
    Without (· = file) a (a.delete file.1 file.2) where
  outside := rfl
  places number := by
    show ((a.tiers.modify file.1 _).get? number).map _ = _
    rw [Table.get?_modify]
    split
    · rename_i hnumber
      rw [hnumber, Option.map_map]
      rfl
    · rfl
  deleted file' hfile := by
    rw [read_delete, hfile, if_pos ⟨rfl, rfl⟩]
  spared file' hfile := by
    rw [read_delete, if_neg fun heq => hfile (Prod.ext heq.1 heq.2)]

end FileArea.Without

namespace DiskTier

/-- The tier that keeps the keys that satisfy `p`. -/
def keep (p : K → Bool) (t : DiskTier K) : DiskTier K :=
  { t with slots := t.slots.keep fun k _ => p k, order := t.order.keep p }

variable [DecidableEq K] {t : DiskTier K}

theorem Sound.keep_eq_self (h : t.Sound) {p : K → Bool} (hp : ∀ k, t.contains k = true → p k = true) :
    t.keep p = t := by
  have hslots : (t.slots.keep fun k _ => p k) = t.slots := by
    refine Table.keep_eq_self fun e he => hp e.1 ?_
    exact Table.contains_of_get? ((t.slots.mem_entries e.1 e.2).1 he)
  unfold keep
  rw [hslots, h.order.keep_eq_self fun k hk => hp k ((h.keys k).2 hk)]

theorem Sound.without_eq_keep (h : t.Sound) (k : K) : t.without k = t.keep fun k' => k' ≠ k := by
  unfold DiskTier.without keep
  rw [h.order.remove_eq_keep]
  rfl

theorem stamps?_keep (t : DiskTier K) (p : K → Bool) (k : K) :
    (t.keep p).stamps? k = (t.stamps? k).filter fun _ => p k := by
  have hslot : (t.keep p).slots.get? k = (t.slots.get? k).filter fun _ => p k :=
    t.slots.get?_keep _ k
  unfold stamps?
  rw [hslot, Option.filter_map]
  rfl

theorem slot_keep {p : K → Bool} {k : K} (hk : p k = true) :
    (t.keep p).slots.get? k = t.slots.get? k := Table.get?_keep_of_true hk

theorem deleteSlot_keep {p : K → Bool} {k : K} (hk : p k = true) (t : DiskTier K)
    (area : FileArea) : ((t.keep p).deleteSlot area k).2 = (t.deleteSlot area k).2 := by
  unfold deleteSlot
  rw [slot_keep hk]
  cases t.slots.get? k <;> rfl

end DiskTier

namespace Overflow

/-- The cache that keeps the keys that satisfy `p`: in both tiers, in the order that they had there, and
in the index. -/
def keep (p : K → Bool) (c : Overflow K V) : Overflow K V :=
  { c with
    entries := c.entries.keep fun k _ => p k
    order := c.order.keep p
    disk := c.disk.map (DiskTier.keep p)
    keyIndex := c.keyIndex.keep fun k _ => p k }

theorem keep_keep (c : Overflow K V) (p q : K → Bool) :
    (c.keep p).keep q = c.keep fun k => p k && q k := by
  have hdisk : (c.disk.map (DiskTier.keep p)).map (DiskTier.keep q) =
      c.disk.map (DiskTier.keep fun k => p k && q k) := by
    rw [Option.map_map]
    refine congrArg (Option.map · c.disk) (funext fun t => ?_)
    simp only [DiskTier.keep, Function.comp_apply, Table.keep_keep, Recency.keep_keep]
  simp only [keep, Table.keep_keep, Recency.keep_keep, hdisk]

variable [DecidableEq K] {c : Overflow K V} {w : World} {k : K} {x : Expiration}

theorem Sound.mem_keyIndex (h : c.Sound) {e : K × Unit} (he : e ∈ c.keyIndex.entries) :
    (c.inMemory e.1 || c.onDisk e.1) = true := by
  rw [← h.index]
  exact Table.contains_of_get? ((c.keyIndex.mem_entries e.1 e.2).1 he)

theorem Sound.keep_eq_self (h : c.Sound) {p : K → Bool}
    (hp : ∀ k, (c.inMemory k || c.onDisk k) = true → p k = true) : c.keep p = c := by
  have hmemory (k : K) (hk : c.inMemory k = true) : p k = true := hp k (by rw [hk, Bool.true_or])
  have hentries : (c.entries.keep fun k _ => p k) = c.entries := by
    refine Table.keep_eq_self fun e he => hmemory e.1 ?_
    exact Table.contains_of_get? ((c.entries.mem_entries e.1 e.2).1 he)
  have hdisk : c.disk.map (DiskTier.keep p) = c.disk := by
    cases htier : c.disk with
    | none => rfl
    | some t =>
      refine congrArg some ((h.disk t htier).keep_eq_self fun k hk => hp k ?_)
      rw [onDisk_of_disk htier, hk, Bool.or_true]
  have hindex : (c.keyIndex.keep fun k _ => p k) = c.keyIndex :=
    Table.keep_eq_self fun e he => hp e.1 (h.mem_keyIndex he)
  unfold keep
  rw [hentries, hdisk, hindex, h.order.keep_eq_self fun k hk => hmemory k ((h.mem_order k).1 hk)]

/-! ## Dropping a list of keys -/

/-- The value that can be told of a key: that of its entry in memory. -/
def atHand? (c : Overflow K V) (k : K) : Option (Shared V) := (c.entries.get? k).map Entry.value

def withoutFile (c : Overflow K V) (area : FileArea) (k : K) : FileArea :=
  match c.disk with
  | some t => (t.deleteSlot area k).2
  | none => area

/-- What it comes to that the keys of `gone` expire. -/
def expelled (c : Overflow K V) (w : World) (gone : List (K × Expiration)) :
    Step (Overflow K V) (Eviction K V) Unit where
  answer := ()
  state := { c.keep (unlisted gone) with metrics := c.metrics.expiredAll gone }
  world := { w with area := gone.foldl (fun area g => c.withoutFile area g.1) w.area }
  log := expiryNotices c.atHand? gone

theorem withoutFile_keep (c : Overflow K V) {p : K → Bool} (hk : p k = true) (area : FileArea) :
    (c.keep p).withoutFile area k = c.withoutFile area k := by
  unfold withoutFile keep
  cases c.disk with
  | none => rfl
  | some t => exact DiskTier.deleteSlot_keep hk t area

theorem stamps?_keep (c : Overflow K V) (p : K → Bool) (k : K) :
    (c.keep p).stamps? k = (c.stamps? k).filter fun _ => p k := by
  have hentry : (c.keep p).entries.get? k = (c.entries.get? k).filter fun _ => p k :=
    c.entries.get?_keep _ k
  have hdisk : ((c.keep p).disk.bind fun t => t.stamps? k) =
      (c.disk.bind fun t => t.stamps? k).filter fun _ => p k := by
    show ((c.disk.map (DiskTier.keep p)).bind fun t => t.stamps? k) = _
    cases c.disk with
    | none => rfl
    | some t => exact t.stamps?_keep p k
  unfold stamps?
  rw [hentry, hdisk]
  cases c.entries.get? k with
  | none => rfl
  | some e =>
    rw [Option.filter_some, Option.filter_some]
    cases p k with
    | true => rfl
    | false => simp

theorem atHand?_keep (c : Overflow K V) {p : K → Bool} (hk : p k = true) :
    (c.keep p).atHand? k = c.atHand? k := by
  have hentry : (c.keep p).entries.get? k = c.entries.get? k := Table.get?_keep_of_true hk
  unfold atHand?
  rw [hentry]

theorem expelled_append (c : Overflow K V) (w : World) (gone gone' : List (K × Expiration))
    (hapart : ∀ g ∈ gone', g.1 ∉ gone.map Prod.fst) :
    ((c.expelled w gone).bind fun _ c w => c.expelled w gone') = c.expelled w (gone ++ gone') := by
  have hkept (g : K × Expiration) (hg : g ∈ gone') : unlisted gone g.1 = true :=
    decide_eq_true (hapart g hg)
  have hstate : (c.keep (unlisted gone)).keep (unlisted gone') =
      c.keep (unlisted (gone ++ gone')) := by rw [keep_keep, unlisted_append]
  have harea : gone'.foldl (fun area g => (c.keep (unlisted gone)).withoutFile area g.1)
      (gone.foldl (fun area g => c.withoutFile area g.1) w.area) =
        (gone ++ gone').foldl (fun area g => c.withoutFile area g.1) w.area := by
    rw [List.foldl_append]
    exact List.foldl_ext _ _ _ fun area g hg => c.withoutFile_keep (hkept g hg) area
  have hlog : expiryNotices (c.keep (unlisted gone)).atHand? gone' =
      expiryNotices c.atHand? gone' := expiryNotices_congr fun g hg => c.atHand?_keep (hkept g hg)
  unfold expelled
  rw [expiryNotices_append, Metrics.expiredAll_append, ← hstate, ← harea, ← hlog]
  rfl

/-! ## One key -/

theorem Sound.dropBoth_eq_keep (h : c.Sound) (k : K) :
    ((c.dropMemory k).dropDisk k).forget k = c.keep fun k' => k' ≠ k := by
  have hdisk : c.disk.map (fun t => t.without k) = c.disk.map (DiskTier.keep fun k' => k' ≠ k) := by
    cases htier : c.disk with
    | none => rfl
    | some t => exact congrArg some ((h.disk t htier).without_eq_keep k)
  unfold Overflow.dropMemory Overflow.dropDisk forget keep
  rw [h.order.remove_eq_keep, hdisk]
  rfl

/-- That one key expires takes it out of both tiers, with its file. -/
theorem Sound.expelled_one (h : c.Sound) (w : World) (k : K) (x : Expiration) :
    c.expelled w [(k, x)] =
      ⟨(), { ((c.dropMemory k).dropDisk k).forget k with metrics := c.metrics.expired x },
        c.clearedWorld w k, [⟨k, c.atHand? k, .expired⟩]⟩ := by
  have hkept : unlisted [(k, x)] = fun k' => decide (k' ≠ k) := by
    funext k'
    simp [unlisted]
  have hworld : c.clearedWorld w k = { w with area := c.withoutFile w.area k } := by
    unfold clearedWorld withoutFile
    cases htier : c.disk with
    | none => rfl
    | some t => simp only [(h.disk t htier).remove_area_eq]
  unfold expelled
  rw [hkept, h.dropBoth_eq_keep, hworld]
  rfl

theorem Sound.expireMemory_eq (h : c.Sound) {e : Entry V} (hget : c.entries.get? k = some e)
    (hx : c.expiration w e = some x) : c.expireMemory w k = c.expelled w [(k, x)] := by
  have hdisk := h.not_onDisk hget
  have htold : c.atHand? k = some e.value := by rw [atHand?, hget, Option.map_some]
  rw [h.expelled_one, htold, (h.toTidy.dropMemory k).dropDisk_eq_self hdisk,
    h.clearedWorld_eq_self w hdisk]
  unfold expireMemory
  simp only [hget, hx]
  rfl

theorem Sound.expireDisk_eq (h : c.Sound) {t : DiskTier K} (hdisk : c.disk = some t)
    (hx : t.expiration w.now c.settings.timeToIdle k = some x) :
    c.expireDisk w t k x = c.expelled w [(k, x)] := by
  have hmemory : c.inMemory k = false := by
    refine not_inMemory_of_onDisk h.toTidy ?_
    rw [onDisk_of_disk hdisk]
    exact contains_of_expiration hx
  have htold : c.atHand? k = none := by rw [atHand?, get?_of_not_inMemory hmemory, Option.map_none]
  rw [h.expelled_one, htold, h.dropMemory_eq_self hmemory, clearedWorld_of_disk hdisk,
    dropDisk_eq hdisk, ← (h.disk t hdisk).remove_tier w.area k]
  rfl

/-! ## The loops -/

theorem expireMemory_parts (c : Overflow K V) (w : World) (k : K) :
    (c.expireMemory w k).state.settings = c.settings ∧
      (c.expireMemory w k).state.entries = c.entries.erase k ∧
      (c.expireMemory w k).state.disk = c.disk ∧ (c.expireMemory w k).world = w := by
  unfold expireMemory
  split
  · rename_i hget
    exact ⟨rfl, (Table.erase_of_not_contains (not_inMemory_of_get? hget)).symm, rfl, rfl⟩
  · exact ⟨rfl, rfl, rfl, rfl⟩

theorem expireAllMemory_parts (ks : List K) (c : Overflow K V) (w : World) :
    (c.expireAllMemory w ks).state.settings = c.settings ∧
      (c.expireAllMemory w ks).state.entries = ks.foldl Table.erase c.entries ∧
      (c.expireAllMemory w ks).state.disk = c.disk ∧ (c.expireAllMemory w ks).world = w := by
  induction ks generalizing c w with
  | nil => exact ⟨rfl, rfl, rfl, rfl⟩
  | cons k ks ih =>
    obtain ⟨hsettings, hentries, hdisk, hworld⟩ := c.expireMemory_parts w k
    obtain ⟨hsettings', hentries', hdisk', hworld'⟩ :=
      ih (c.expireMemory w k).state (c.expireMemory w k).world
    rw [hsettings] at hsettings'
    rw [hentries] at hentries'
    rw [hdisk] at hdisk'
    exact ⟨hsettings', hentries', hdisk', hworld'.trans hworld⟩

theorem Sound.expelled_nil (h : c.Sound) (w : World) : c.expelled w [] = .pure () c w := by
  have hself : c.keep (unlisted []) = c := h.keep_eq_self fun k _ => by simp [unlisted]
  unfold expelled
  rw [hself]
  rfl

theorem expelled_cons (c : Overflow K V) (w : World) {g : K × Expiration}
    {gone : List (K × Expiration)} (hnodup : ((g :: gone).map Prod.fst).Nodup) :
    ((c.expelled w [g]).bind fun _ c w => c.expelled w gone) = c.expelled w (g :: gone) := by
  have hnot : g.1 ∉ gone.map Prod.fst := (List.nodup_cons.1 hnodup).1
  refine c.expelled_append w [g] gone fun g' hg' => ?_
  rw [List.map_singleton, List.mem_singleton]
  exact fun heq => hnot (heq ▸ List.mem_map_of_mem hg')

theorem Sound.expireAllMemory_eq (h : c.Sound) (w : World) {gone : List (K × Expiration)}
    (hnodup : (gone.map Prod.fst).Nodup)
    (hgone : ∀ g ∈ gone, ∃ e, c.entries.get? g.1 = some e ∧ c.expiration w e = some g.2) :
    c.expireAllMemory w (gone.map Prod.fst) = c.expelled w gone := by
  induction gone generalizing c w with
  | nil => exact (h.expelled_nil w).symm
  | cons g gone ih =>
    obtain ⟨hnot, hrest⟩ := List.nodup_cons.1 hnodup
    obtain ⟨e, hget, hx⟩ := hgone g List.mem_cons_self
    have hsound : (c.expireMemory w g.1).state.Sound := (Sink.expireMemory hget hx).sound h
    obtain ⟨hsettings, hentries, -, hworld⟩ := c.expireMemory_parts w g.1
    -- The other keys are bound as before, and expired for the same reasons.
    have hlater := ih hsound (c.expireMemory w g.1).world hrest fun g' hg' => by
      obtain ⟨e', hget', hx'⟩ := hgone g' (List.mem_cons_of_mem g hg')
      have hne : g'.1 ≠ g.1 := fun heq => hnot (heq ▸ List.mem_map_of_mem hg')
      refine ⟨e', ?_, ?_⟩
      · rw [hentries, Table.get?_erase, if_neg hne, hget']
      · rw [← hx', expiration, hsettings, hworld]
        rfl
    rw [List.map_cons, expireAllMemory, ← expelled_cons c w hnodup, ← h.expireMemory_eq hget hx]
    exact Step.bind_congr hlater

theorem Sound.expireAllDisk_eq (h : c.Sound) (w : World) {gone : List (K × Expiration)}
    (hnodup : (gone.map Prod.fst).Nodup) {t : DiskTier K} (hdisk : c.disk = some t)
    (hgone : ∀ g ∈ gone, t.expiration w.now c.settings.timeToIdle g.1 = some g.2) :
    c.expireAllDisk w gone = c.expelled w gone := by
  induction gone generalizing c w t with
  | nil => exact (h.expelled_nil w).symm
  | cons g gone ih =>
    obtain ⟨hnot, hrest⟩ := List.nodup_cons.1 hnodup
    have hx := hgone g List.mem_cons_self
    have hsound : (c.expireDisk w t g.1 g.2).state.Sound := (Sink.expireDisk hdisk hx).sound h
    have htier : (c.expireDisk w t g.1 g.2).state.disk = some (t.without g.1) :=
      congrArg some ((h.disk t hdisk).remove_tier w.area g.1)
    have hlater := ih hsound (c.expireDisk w t g.1 g.2).world hrest htier fun g' hg' => by
      have hne : g'.1 ≠ g.1 := fun heq => hnot (heq ▸ List.mem_map_of_mem hg')
      have hx' := hgone g' (List.mem_cons_of_mem g hg')
      rw [DiskTier.expiration_eq] at hx' ⊢
      rw [DiskTier.stamps?_without, if_neg hne]
      exact hx'
    rw [expireAllDisk, ← expelled_cons c w hnodup, ← h.expireDisk_eq hdisk hx]
    simp only [hdisk]
    exact Step.bind_congr hlater

/-! ## What is due -/

def reason (c : Overflow K V) (w : World) (k : K) : Option Expiration :=
  (c.stamps? k).bind fun stamps => stamps.expiration w.now c.settings.timeToIdle

theorem reason_keep (c : Overflow K V) (w : World) (p : K → Bool) (k : K) :
    (c.keep p).reason w k = if p k then c.reason w k else none := by
  unfold reason
  rw [stamps?_keep]
  exact bind_filter_const _ _ _

omit [DecidableEq K] in
def dueInMemory (c : Overflow K V) (w : World) : List (K × Expiration) :=
  c.entries.due (c.expiration w)

omit [DecidableEq K] in
def dueOnDisk (c : Overflow K V) (w : World) : List (K × Expiration) :=
  match c.disk with
  | some t => t.expiredKeys w.now c.settings.timeToIdle
  | none => []

theorem mem_dueOnDisk (c : Overflow K V) (w : World) (k : K) (x : Expiration) :
    (k, x) ∈ c.dueOnDisk w ↔
      ∃ t, c.disk = some t ∧ t.expiration w.now c.settings.timeToIdle k = some x := by
  unfold dueOnDisk
  cases c.disk with
  | none => simp
  | some t => simp [DiskTier.mem_expiredKeys]

omit [DecidableEq K] in
theorem nodup_dueOnDisk (c : Overflow K V) (w : World) : ((c.dueOnDisk w).map Prod.fst).Nodup := by
  unfold dueOnDisk
  cases c.disk with
  | none => exact List.nodup_nil
  | some t => exact t.nodup_expiredKeys _ _

theorem Sound.due_apart (h : c.Sound) {g : K × Expiration} (hg : g ∈ c.dueOnDisk w) :
    g.1 ∉ (c.dueInMemory w).map Prod.fst := by
  intro hmemory
  obtain ⟨⟨k, x⟩, hdue, hk⟩ := List.mem_map.1 hmemory
  obtain ⟨e, hget, -⟩ := (c.entries.mem_due _ k x).1 hdue
  obtain ⟨t, hdisk, hx⟩ := (c.mem_dueOnDisk w g.1 g.2).1 hg
  have honDisk : c.onDisk g.1 = true := by
    rw [onDisk_of_disk hdisk]
    exact contains_of_expiration hx
  rw [← hk, h.not_onDisk hget] at honDisk
  cases honDisk

theorem Sound.lists_due (h : c.Sound) (w : World) :
    Lists (c.dueInMemory w ++ c.dueOnDisk w) (c.reason w) where
  nodup := by
    rw [List.map_append, List.nodup_append']
    refine ⟨c.entries.nodup_due _, c.nodup_dueOnDisk w, fun k hmemory hdisk => ?_⟩
    obtain ⟨g, hg, rfl⟩ := List.mem_map.1 hdisk
    exact h.due_apart hg hmemory
  mem k x := by
    rw [List.mem_append, dueInMemory, Table.mem_due, mem_dueOnDisk]
    unfold reason
    cases hget : c.entries.get? k with
    | some e =>
      have hnot := h.not_onDisk hget
      rw [stamps?_of_get? hget, Option.bind_some]
      constructor
      · rintro (⟨e', he', hx⟩ | ⟨t, hdisk, hx⟩)
        · rw [Option.some.inj he']
          exact hx
        · rw [onDisk_of_disk hdisk, contains_of_expiration hx] at hnot
          cases hnot
      · exact fun hx => .inl ⟨e, rfl, hx⟩
    | none =>
      rw [stamps?_of_get?_eq_none hget]
      cases c.disk with
      | none => simp
      | some t => simp [DiskTier.expiration_eq]

/-! ## The purge -/

theorem Dated.reason_eq_none (h : c.Dated) (w : World) (htimeless : c.timeless = true) (k : K) :
    c.reason w k = none := by
  unfold reason
  cases hstamps : c.stamps? k with
  | none => rfl
  | some stamps => exact Option.isNone_iff_eq_none.1 (h.fresh w hstamps htimeless)

theorem Sound.purgeExpired_eq (h : c.Sound) (hdated : c.Dated) (w : World) :
    c.purgeExpired w = c.expelled w (c.dueInMemory w ++ c.dueOnDisk w) := by
  unfold Overflow.purgeExpired
  split
  · rename_i htimeless
    have hnothing := (h.lists_due w).eq_nil (hdated.reason_eq_none w htimeless)
    rw [hnothing, h.expelled_nil]
  · have hkeys : (c.entries.entries.filterMap fun e => (c.expiration w e.2).map fun _ => e.1) =
        (c.dueInMemory w).map Prod.fst := (c.entries.keys_due _).symm
    have hnodup : ((c.dueInMemory w).map Prod.fst).Nodup := c.entries.nodup_due _
    have hstored (g : K × Expiration) (hg : g ∈ c.dueInMemory w) :
        ∃ e, c.entries.get? g.1 = some e ∧ c.expiration w e = some g.2 :=
      (c.entries.mem_due _ g.1 g.2).1 hg
    have hmemory := h.expireAllMemory_eq w hnodup hstored
    have hsound : (c.expireAllMemory w ((c.dueInMemory w).map Prod.fst)).state.Sound := by
      refine (expireAllMemory_sheds _ h w hnodup fun k hk => ?_).sinks.sound h
      obtain ⟨g, hg, rfl⟩ := List.mem_map.1 hk
      obtain ⟨e, he⟩ := hstored g hg
      exact ⟨e, g.2, he⟩
    obtain ⟨hsettings, -, hdisk, hworld⟩ :=
      expireAllMemory_parts ((c.dueInMemory w).map Prod.fst) c w
    rw [hkeys, ← c.expelled_append w _ _ fun g hg => h.due_apart hg, ← hmemory]
    refine Step.bind_congr ?_
    -- What is due on disk is collected after memory was purged, which leaves the disk tier as it was.
    rw [hdisk]
    cases htier : c.disk with
    | none =>
      have hnothing : c.dueOnDisk w = [] := by rw [dueOnDisk, htier]
      rw [hnothing]
      exact (hsound.expelled_nil _).symm
    | some t =>
      have hdue : c.dueOnDisk w = t.expiredKeys w.now c.settings.timeToIdle := by
        rw [dueOnDisk, htier]
      dsimp only
      rw [hsettings, hworld, ← hdue]
      refine hsound.expireAllDisk_eq w (c.nodup_dueOnDisk w) (hdisk.trans htier) fun g hg => ?_
      obtain ⟨t', htier', hx⟩ := (c.mem_dueOnDisk w g.1 g.2).1 hg
      rw [htier] at htier'
      rw [hsettings, Option.some.inj htier']
      exact hx

theorem Sound.state_purgeExpired (h : c.Sound) (hdated : c.Dated) (w : World) :
    (c.purgeExpired w).state = { c.keep fun k => (c.reason w k).isNone with
      metrics := c.metrics.expiredAll (c.dueInMemory w ++ c.dueOnDisk w) } := by
  rw [h.purgeExpired_eq hdated, ← (h.lists_due w).unlisted_eq]
  rfl

theorem Sound.reason_purgeExpired (h : c.Sound) (hdated : c.Dated) {w' : World}
    (hnow : w'.now = w.now) (k : K) : (c.purgeExpired w).state.reason w' k = none := by
  have hsame : c.reason w' k = c.reason w k := by rw [reason, reason, hnow]
  rw [h.state_purgeExpired hdated]
  refine (c.reason_keep w' _ k).trans ?_
  rw [hsame]
  cases hreason : c.reason w k <;> simp

/-- A purge right after a purge does nothing. -/
theorem Sound.purgeExpired_again (h : c.Sound) (hdated : c.Dated) {w' : World}
    (hnow : w'.now = w.now) :
    (c.purgeExpired w).state.purgeExpired w' = .pure () (c.purgeExpired w).state w' := by
  have hsound := h.purgeExpired w
  have hnothing := (hsound.lists_due w').eq_nil (h.reason_purgeExpired hdated hnow)
  rw [hsound.purgeExpired_eq (hdated.perform h w .purgeExpired), hnothing, hsound.expelled_nil]

/-! ## The files -/

/-- Where the file of `k` lies: the number of its directory and its name there. -/
def file? (c : Overflow K V) (k : K) : Option (Nat × String) :=
  c.disk.bind fun t => t.place.bind fun place =>
    (t.slots.get? k).map fun slot => (place.number, DiskTier.fileName slot.fileId)

theorem withoutFile_eq (c : Overflow K V) (area : FileArea) (k : K) :
    c.withoutFile area k =
      match c.file? k with
      | some file => area.delete file.1 file.2
      | none => area := by
  unfold withoutFile file? DiskTier.deleteSlot
  cases c.disk with
  | none => rfl
  | some t =>
    simp only [Option.bind_some]
    cases t.slots.get? k <;> cases t.place <;> rfl

theorem Sound.file?_injective (h : c.Sound) {k k' : K} {file : Nat × String}
    (hfile : c.file? k = some file) (hfile' : c.file? k' = some file) : k = k' := by
  obtain ⟨t, hdisk, hfile⟩ := Option.bind_eq_some_iff.1 hfile
  obtain ⟨place, hplace, hfile⟩ := Option.bind_eq_some_iff.1 hfile
  obtain ⟨slot, hslot, rfl⟩ := Option.map_eq_some_iff.1 hfile
  unfold file? at hfile'
  rw [hdisk, Option.bind_some, hplace, Option.bind_some] at hfile'
  obtain ⟨slot', hslot', heq⟩ := Option.map_eq_some_iff.1 hfile'
  have hname := DiskTier.fileName_injective (Prod.mk.inj heq).2
  exact (h.disk t hdisk).distinct k k' slot slot' hslot hslot' hname.symm

theorem without_foldl (c : Overflow K V) (gone : List (K × Expiration)) (area : FileArea) :
    area.Without (fun file => ∃ g ∈ gone, c.file? g.1 = some file)
      (gone.foldl (fun area g => c.withoutFile area g.1) area) := by
  induction gone generalizing area with
  | nil => exact .refl (by simp) area
  | cons g gone ih =>
    have hfirst : area.Without (fun file => c.file? g.1 = some file) (c.withoutFile area g.1) := by
      rw [withoutFile_eq]
      cases c.file? g.1 with
      | none => exact .refl (by simp) area
      | some file => exact (FileArea.Without.delete area file).congr fun _ => by simp [eq_comm]
    refine (hfirst.trans (ih _)).congr fun file => ?_
    simp

theorem file?_keep (c : Overflow K V) {p : K → Bool} (hk : p k = true) :
    (c.keep p).file? k = c.file? k := by
  unfold file? keep
  cases c.disk with
  | none => rfl
  | some t =>
    simp only [Option.map_some, Option.bind_some, DiskTier.slot_keep hk]
    rfl

theorem Sound.files_purgeExpired (h : c.Sound) (hdated : c.Dated) (w : World) :
    w.area.Without (fun file => ∃ k, (c.reason w k).isSome = true ∧ c.file? k = some file)
      (c.purgeExpired w).world.area := by
  have hlists := h.lists_due w
  rw [h.purgeExpired_eq hdated]
  refine (c.without_foldl _ w.area).congr fun file => ?_
  constructor
  · rintro ⟨g, hg, hfile⟩
    exact ⟨g.1, (hlists.mem_keys g.1).1 (List.mem_map_of_mem hg), hfile⟩
  · rintro ⟨k, hexpired, hfile⟩
    obtain ⟨g, hg, rfl⟩ := List.mem_map.1 ((hlists.mem_keys k).2 hexpired)
    exact ⟨g, hg, hfile⟩

end Overflow

end CacheLayer
