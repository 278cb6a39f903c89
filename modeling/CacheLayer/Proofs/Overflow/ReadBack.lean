import CacheLayer.Proofs.Overflow.Admission

/-!
# Reading back what was just stored

A value that was stored is found by the next look-up of its key if it fits into memory by itself, or
else if it fits onto the disk by itself and can be written there and read again. Both loops come to it
last: whatever was in memory before has left when its turn comes, and whatever was on disk before when
the disk is trimmed.

* `Passes`, `spillAll_passes` : what spilling other keys leaves alone.
* `Vacant.takeIn_passed` : an entry that does not fit into memory is the last to be spilled.
* `Spilled.found` : what is found of an entry that was spilled.
* `read_back_run` : at any time of any run.
-/

namespace CacheLayer

/-- Whether one entry of so many bytes is within the bound. -/
def Bound.HasRoomFor (b : Bound) (bytes : Nat) : Prop :=
  match b with
  | .entries _ => True
  | .bytes max => bytes ≤ max

instance (b : Bound) (bytes : Nat) : Decidable (b.HasRoomFor bytes) :=
  match b with
  | .entries _ => instDecidableTrue
  | .bytes max => Nat.decLe bytes max

/-- The next file can be written, the value can be written and read again, and it fits alone. -/
def DiskTier.Keeps {K : Type u} {V : Type v} (t : DiskTier K) (codec : Codec V) (area : FileArea)
    (v : V) : Prop :=
  t.accepts area = true ∧ ∃ bytes v', codec.encode v = .ok bytes ∧ codec.read bytes = .ok v' ∧
    t.bound.HasRoomFor bytes.length

theorem Builder.max_of_built {K : Type u} {V : Type v} {b : Builder} {st : Storage K V}
    {w w' : World} {c : Overflow K V} (h : b.buildOverflow st w = (.ok c, w')) : b.config.memoryBound.max ≠ 0 ∧
      (b.config.persistence = .swapOnOverflow → b.config.diskBound.max ≠ 0) := by
  have hvalid : b.validate .diskOverflow = .ok () := by
    unfold Builder.buildOverflow at h
    split at h
    · cases h
    · rename_i hvalid
      exact hvalid
  unfold Builder.validate at hvalid
  split at hvalid
  · cases hvalid
  · dsimp only at hvalid
    split at hvalid
    · cases hvalid
    · rename_i hmemory
      split at hvalid
      · cases hvalid
      · rename_i hdisk
        exact ⟨hmemory, fun hpersistence hmax => hdisk ⟨hpersistence, hmax⟩⟩

theorem Timestamps.live_create {now : Nat} {timeToLive timeToIdle : Option Duration}
    (hnow : now < maxCount) (hlive : ∀ d, timeToLive = some d → 0 < d.nanos)
    (hidle : ∀ d, timeToIdle = some d → 0 < d.nanos) :
    (Timestamps.create now timeToLive timeToIdle).expiration now timeToIdle = none := by
  unfold Timestamps.expiration Timestamps.create
  rw [if_neg]
  · cases timeToIdle with
    | none => rfl
    | some d =>
      have hpositive := hidle d rfl
      show (if saturate (saturate now + saturate d.nanos) ≤ saturate now then _ else _) = _
      rw [if_neg]
      unfold saturate
      omega
  · cases timeToLive with
    | none => simp
    | some d =>
      have hpositive := hlive d rfl
      dsimp only
      unfold saturate
      omega

theorem Bound.allows_iff_hasRoomFor {K : Type u} {b : Bound} (hmax : b.max ≠ 0) (k : K)
    (bytes : Nat) : b.Allows [(k, bytes)] ↔ b.HasRoomFor bytes := by
  cases b with
  | entries max => exact iff_of_true (Nat.one_le_iff_ne_zero.2 hmax) trivial
  | bytes max => exact Iff.rfl

namespace DiskTier

variable {K : Type u} {V : Type v} [DecidableEq K] {t : DiskTier K}

/-- A new entry is pushed off the disk itself exactly if it does not fit alone. -/
theorem Sound.mem_pushed_iff (h : t.Sound) (k : K) (bytes : Nat) :
    k ∈ (t.listed k bytes).2 ↔ ¬ t.bound.Allows [(k, bytes)] := by
  obtain ⟨gone, hcuts, hgone⟩ := h.listed_cuts k bytes
  have hnodup := (h.order.pushFront k bytes).nodup_keys
  rw [Recency.keys, Recency.items_pushFront] at hnodup
  rw [hgone, List.mem_reverse]
  exact hcuts.head_gone_iff hnodup

theorem Sound.view?_written (h : t.Sound) {codec : Codec V} {area : FileArea}
    (haccepts : t.accepts area = true) (k : K) (bytes : List UInt8) (stamps : Timestamps) :
    (t.withWritten k bytes.length stamps).view? codec (t.write area k bytes stamps).area k =
      if k ∈ (t.listed k bytes.length).2 then none
      else (codec.read bytes).toOption.map fun v => (stamps, v) := by
  have hcontent := h.content?_write k bytes stamps haccepts k
  rw [h.write_tier haccepts, if_pos rfl] at hcontent
  unfold DiskTier.view?
  rw [stamps?_withWritten, hcontent, if_pos rfl]
  split <;> rfl

end DiskTier

namespace Overflow

variable {K : Type u} {V : Type v}

/-- The entry leaves a file behind when it is spilled. -/
def takesFile (c : Overflow K V) (w : World) (e : Entry V) : Bool :=
  (c.expiration w e).isNone && (c.settings.codec.encode e.value.value).toBool

def memoryBytes (c : Overflow K V) (v : V) : Nat :=
  match c.settings.codec.encode v with
  | .ok bytes => bytes.length
  | .error _ => c.settings.footprint

/-- The value fits into memory by itself. -/
def FitsMemory (c : Overflow K V) (v : V) : Prop :=
  c.settings.memoryBound.HasRoomFor (c.memoryBytes v)

instance (c : Overflow K V) (v : V) : Decidable (c.FitsMemory v) :=
  inferInstanceAs (Decidable (c.settings.memoryBound.HasRoomFor (c.memoryBytes v)))

variable [DecidableEq K]

/-- How many files the entries in memory other than that of `k` take. -/
def filesBefore (c : Overflow K V) (w : World) (k : K) : Nat :=
  c.entries.entries.countP fun e => decide (e.1 ≠ k) && c.takesFile w e.2

/-- The value fits onto the disk by itself; its file is numbered after those of all the others. -/
def FitsDisk (c : Overflow K V) (w : World) (k : K) (v : V) : Prop :=
  ∃ t, c.disk = some t ∧ DiskTier.Keeps { t with nextFileId := t.nextFileId + c.filesBefore w k }
    c.settings.codec w.area v

/-! ## Spilling other keys -/

/-- `t'` is `t` after so many files were numbered; of the keys that were not there, only those listed
may be there. -/
structure TierFollows (ks : List K) (files : Nat) (t t' : DiskTier K) : Prop where
  sound : t'.Sound
  place : t'.place = t.place
  bound : t'.bound = t.bound
  nextFileId : t'.nextFileId = t.nextFileId + files
  absent : ∀ k, k ∉ ks → t.contains k = false → t'.contains k = false

theorem TierFollows.trans {ks ks' : List K} {files files' : Nat} {t t' t'' : DiskTier K}
    (h : TierFollows ks files t t') (h' : TierFollows ks' files' t' t'') :
    TierFollows (ks ++ ks') (files + files') t t'' where
  sound := h'.sound
  place := h'.place.trans h.place
  bound := h'.bound.trans h.bound
  nextFileId := by rw [h'.nextFileId, h.nextFileId, Nat.add_assoc]
  absent k hk hnot := by
    rw [List.mem_append, not_or] at hk
    exact h'.absent k hk.2 (h.absent k hk.1 hnot)

/-- What spilling these keys, which take so many files, leaves alone. -/
structure Passes (ks : List K) (files : Nat) (c : Overflow K V) (w : World)
    (s : Step (Overflow K V) (Eviction K V) Unit) : Prop where
  settings : s.state.settings = c.settings
  now : s.world.now = w.now
  sameTiers : FileArea.SameTiers w.area s.world.area
  memoryOnly : c.disk = none → s.state.disk = none
  overDisk : ∀ t, c.disk = some t → ∃ t', s.state.disk = some t' ∧ TierFollows ks files t t'

theorem Spilled.passes {c : Overflow K V} {w : World} {k : K} {e : Entry V}
    {s : Step (Overflow K V) (Eviction K V) Unit} (hs : Spilled c w k e s)
    (h : ∀ t, c.disk = some t → t.Sound) :
    Passes [k] (if c.takesFile w e then 1 else 0) c w s := by
  refine ⟨hs.sameSetup.settings, hs.now, hs.sameTiers, ?_, ?_⟩
  · intro hnone
    cases hs with
    | expired x hx => exact hnone
    | dropped hlive hdisk => exact hnone
    | unencodable hlive t hdisk fault hencode => exact hnone
    | refused hlive t hdisk bytes hencode haccepts => cases hdisk.symm.trans hnone
    | written hlive t hdisk bytes hencode haccepts => cases hdisk.symm.trans hnone
  · intro t ht
    have hsound := h t ht
    cases hs with
    | expired x hx =>
      rw [takesFile, hx]
      exact ⟨t, ht, hsound, rfl, rfl, rfl, fun k' _ hnot => hnot⟩
    | dropped hlive hdisk => cases hdisk.symm.trans ht
    | unencodable hlive t' hdisk fault hencode =>
      rw [takesFile, hencode, Bool.and_comm]
      exact ⟨t, ht, hsound, rfl, rfl, rfl, fun k' _ hnot => hnot⟩
    | refused hlive t' hdisk bytes hencode haccepts =>
      obtain rfl := Option.some.inj (ht.symm.trans hdisk)
      rw [takesFile, hlive, hencode]
      refine ⟨_, rfl, (hsound.without k).bump, rfl, rfl, rfl, fun k' hk' hnot => ?_⟩
      show (t.slots.erase k).contains k' = false
      rw [Table.contains_erase]
      exact Bool.and_eq_false_iff.2 (.inr hnot)
    | written hlive t' hdisk bytes hencode haccepts =>
      obtain rfl := Option.some.inj (ht.symm.trans hdisk)
      rw [takesFile, hlive, hencode]
      refine ⟨_, rfl, hsound.withWritten k bytes.length e.stamps, rfl, rfl, rfl, ?_⟩
      intro k' hk' hnot
      by_contra hcontains
      rcases DiskTier.of_contains_withWritten (Bool.not_eq_false _ ▸ hcontains) with rfl | hold
      · exact hk' (List.mem_singleton_self k')
      · rw [hnot] at hold
        cases hold

omit [DecidableEq K] in
theorem takesFile_congr {c c' : Overflow K V} {w w' : World} (hsettings : c'.settings = c.settings)
    (hnow : w'.now = w.now) (e : Entry V) : c'.takesFile w' e = c.takesFile w e := by
  unfold takesFile expiration
  rw [hsettings, hnow]

theorem Passes.congr {ks : List K} {files : Nat} {c c' : Overflow K V} {w : World}
    {s : Step (Overflow K V) (Eviction K V) Unit} (h : Passes ks files c w s)
    (hsettings : c.settings = c'.settings) (hdisk : c.disk = c'.disk) : Passes ks files c' w s :=
  ⟨h.settings.trans hsettings, h.now, h.sameTiers, fun hnone => h.memoryOnly (hdisk.trans hnone),
    fun t ht => h.overDisk t (hdisk.trans ht)⟩

theorem Passes.trans {ks ks' : List K} {files files' : Nat} {c : Overflow K V} {w : World}
    {s s' : Step (Overflow K V) (Eviction K V) Unit} (h : Passes ks files c w s)
    (h' : Passes ks' files' s.state s.world s') :
    Passes (ks ++ ks') (files + files') c w { s' with log := s.log ++ s'.log } where
  settings := h'.settings.trans h.settings
  now := h'.now.trans h.now
  sameTiers := h.sameTiers.trans h'.sameTiers
  memoryOnly hnone := h'.memoryOnly (h.memoryOnly hnone)
  overDisk t ht := by
    obtain ⟨t', ht', hfollows⟩ := h.overDisk t ht
    obtain ⟨t'', ht'', hfollows'⟩ := h'.overDisk t' ht'
    exact ⟨t'', ht'', hfollows.trans hfollows'⟩

theorem Passes.tier {ks : List K} {files : Nat} {c : Overflow K V} {w : World}
    {s : Step (Overflow K V) (Eviction K V) Unit} (h : Passes ks files c w s) {t' : DiskTier K}
    (ht' : s.state.disk = some t') : ∃ t, c.disk = some t ∧ TierFollows ks files t t' := by
  cases hdisk : c.disk with
  | none => cases (h.memoryOnly hdisk).symm.trans ht'
  | some t =>
    obtain ⟨t'', ht'', hfollows⟩ := h.overDisk t hdisk
    rw [Option.some.inj (ht'.symm.trans ht'')]
    exact ⟨t, rfl, hfollows⟩

theorem Passes.sound {ks : List K} {files : Nat} {c : Overflow K V} {w : World}
    {s : Step (Overflow K V) (Eviction K V) Unit} (h : Passes ks files c w s) (t : DiskTier K)
    (ht : s.state.disk = some t) : t.Sound := by
  obtain ⟨t₀, ht₀, hfollows⟩ := h.tier ht
  exact hfollows.sound

theorem Passes.expiration {ks : List K} {files : Nat} {c : Overflow K V} {w : World}
    {s : Step (Overflow K V) (Eviction K V) Unit} (h : Passes ks files c w s) (e : Entry V) :
    s.state.expiration s.world e = c.expiration w e := by
  unfold Overflow.expiration
  rw [h.settings, h.now]

/-- The tier keeps a value afterwards if it would have kept it under the number that is next then. -/
theorem Passes.keeps_iff {ks : List K} {files : Nat} {c : Overflow K V} {w : World}
    {s : Step (Overflow K V) (Eviction K V) Unit} (h : Passes ks files c w s) (v : V) :
    (∃ t', s.state.disk = some t' ∧ t'.Keeps s.state.settings.codec s.world.area v) ↔
      ∃ t, c.disk = some t ∧ DiskTier.Keeps { t with nextFileId := t.nextFileId + files }
        c.settings.codec w.area v := by
  have hkeeps {t t' : DiskTier K} (hfollows : TierFollows ks files t t') :
      t'.Keeps s.state.settings.codec s.world.area v ↔
        DiskTier.Keeps { t with nextFileId := t.nextFileId + files } c.settings.codec w.area v := by
    unfold DiskTier.Keeps
    rw [h.settings, hfollows.bound, DiskTier.accepts_congr
      (t := { t with nextFileId := t.nextFileId + files }) h.sameTiers hfollows.place
      hfollows.nextFileId]
  constructor
  · rintro ⟨t', ht', hkept⟩
    obtain ⟨t, ht, hfollows⟩ := h.tier ht'
    exact ⟨t, ht, (hkeeps hfollows).1 hkept⟩
  · rintro ⟨t, ht, hkept⟩
    obtain ⟨t', ht', hfollows⟩ := h.overDisk t ht
    exact ⟨t', ht', (hkeeps hfollows).2 hkept⟩

def keyTakesFile (c : Overflow K V) (w : World) (k : K) : Bool :=
  (c.entries.get? k).any (c.takesFile w)

theorem spillAll_passes (ks : List K) {c : Overflow K V} {w : World}
    (h : ∀ t, c.disk = some t → t.Sound) (hks : ks.Nodup)
    (hin : ∀ k ∈ ks, c.inMemory k = true) :
    Passes ks (ks.countP (c.keyTakesFile w)) c w (c.spillAll w ks) ∧
      (c.spillAll w ks).state.entries = ks.foldl Table.erase c.entries := by
  induction ks generalizing c w with
  | nil =>
    exact ⟨⟨rfl, rfl, .refl _, id, fun t ht => ⟨t, ht, h t ht, rfl, rfl, rfl, fun _ _ => id⟩⟩, rfl⟩
  | cons k ks ih =>
    obtain ⟨hk, hks⟩ := List.nodup_cons.1 hks
    obtain ⟨e, hget⟩ := Table.get?_of_contains (hin k (by simp))
    have hspilled := spilled (c := { c with entries := c.entries.erase k }) h w k e
    rw [spillAll]
    simp only [hget]
    generalize Overflow.spill { c with entries := c.entries.erase k } w k e = s at hspilled ⊢
    have hfirst : Passes [k] (if c.takesFile w e then 1 else 0) c w s :=
      (hspilled.passes h).congr rfl rfl
    have hthere : ∀ k' ∈ ks, s.state.entries.get? k' = c.entries.get? k' := by
      intro k' hk'
      have hne : k' ≠ k := fun heq => hk (heq ▸ hk')
      rw [hspilled.entries, Table.get?_erase, if_neg hne]
    have hstill : ∀ k' ∈ ks, s.state.inMemory k' = true := by
      intro k' hk'
      unfold inMemory Table.contains
      rw [hthere k' hk']
      exact hin k' (by simp [hk'])
    obtain ⟨hlater, hentries⟩ := ih hfirst.sound hks hstill
    -- the first spill leaves the later entries and the clock, so the later ones take as many files
    have hcount : ks.countP (s.state.keyTakesFile s.world) = ks.countP (c.keyTakesFile w) := by
      refine List.countP_congr fun k' hk' => ?_
      unfold keyTakesFile
      rw [hthere k' hk', funext (takesFile_congr hfirst.settings hfirst.now)]
    rw [hcount] at hlater
    refine ⟨?_, ?_⟩
    · have hboth := hfirst.trans hlater
      have hfiles : (k :: ks).countP (c.keyTakesFile w) =
          (if c.takesFile w e then 1 else 0) + ks.countP (c.keyTakesFile w) := by
        rw [List.countP_cons, Nat.add_comm, keyTakesFile, hget]
        rfl
      rw [hfiles]
      exact hboth
    · exact hentries.trans (congrArg (ks.foldl Table.erase) hspilled.entries)

theorem spillAll_append (ks ks' : List K) (c : Overflow K V) (w : World) :
    c.spillAll w (ks ++ ks') = (c.spillAll w ks).bind fun _ c w => c.spillAll w ks' := by
  induction ks generalizing c w with
  | nil => rfl
  | cons k ks ih =>
    rw [List.cons_append, spillAll, spillAll]
    split
    · exact ih c w
    · rw [Step.bind, Step.bind]
      simp only [ih, Step.bind, List.append_assoc]

/-! ## The entry itself comes last -/

theorem Vacant.not_mem_keys {c : Overflow K V} {k : K} (h : c.Vacant k) : k ∉ c.order.keys := by
  rw [h.mem_order, h.notInMemory]
  exact Bool.false_ne_true

theorem Vacant.filesBefore_eq {c : Overflow K V} {k : K} (h : c.Vacant k) (w : World) :
    c.filesBefore w k = c.order.keys.countP (c.keyTakesFile w) := by
  have hperm : c.entries.keys.Perm c.order.keys :=
    Table.keys_perm h.order.nodup_keys fun k' => (h.mem_order k').symm
  rw [← hperm.countP_eq, Table.keys, List.countP_map]
  refine List.countP_congr fun e he => ?_
  have hget := (c.entries.mem_entries e.1 e.2).1 he
  have hne : e.1 ≠ k := fun hk => by
    have hin := inMemory_of_get? hget
    rw [hk, h.notInMemory] at hin
    cases hin
  simp [keyTakesFile, hget, hne]

theorem Vacant.takeIn_spills {c : Overflow K V} {k : K} (h : c.Vacant k) (w : World) (e : Entry V) :
    ∃ (c' : Overflow K V) (kept gone : List (K × Nat)), c'.settings = c.settings ∧
      c'.disk = c.disk ∧ c'.entries = c.entries.insert k e ∧
      c.settings.memoryBound.Cuts ((k, e.weight) :: c.order.items) kept gone ∧
      c.takeIn w k e = c'.spillAll w (gone.map Prod.fst).reverse := by
  obtain ⟨gone, hcuts, hgone⟩ := (h.atFront e).order.trim_cuts c.settings.memoryBound (Nat.le_refl _)
  have hitems : (c.atFront k e).order.items = (k, e.weight) :: c.order.items := by
    rw [← Recency.others_of_not_mem h.not_mem_keys]
    exact c.order.items_pushFront k e.weight
  rw [hitems] at hcuts
  refine ⟨{ c.atFront k e with order := (Recency.trim c.settings.memoryBound.exceededBy
    (c.atFront k e).order.size (c.atFront k e).order).1 }, _, gone, rfl, rfl, rfl, hcuts, ?_⟩
  rw [takeIn_eq_settled, ← hgone]
  rfl

theorem Vacant.inMemory_of_insert {c c' : Overflow K V} {k : K} {e : Entry V} (h : c.Vacant k)
    (hentries : c'.entries = c.entries.insert k e) {k' : K} (hk' : k' ∈ k :: c.order.keys) :
    c'.inMemory k' = true := by
  unfold inMemory
  rw [hentries, Table.contains_insert]
  rcases List.mem_cons.1 hk' with rfl | hlisted
  · rw [decide_eq_true rfl, Bool.true_or]
  · rw [show c.entries.contains k' = true from (h.mem_order k').1 hlisted, Bool.or_true]

theorem Vacant.nodup_front {c : Overflow K V} {k : K} (h : c.Vacant k) (weight : Nat) :
    (((k, weight) :: c.order.items).map Prod.fst).Nodup :=
  List.nodup_cons.2 ⟨h.not_mem_keys, h.order.nodup_keys⟩

theorem Vacant.takeIn_kept {c : Overflow K V} {k : K} (h : c.Vacant k) (w : World) {e : Entry V}
    (hfits : c.settings.memoryBound.Allows [(k, e.weight)]) :
    (c.takeIn w k e).state.entries.get? k = some e ∧
      ∃ ks files, Passes ks files c w (c.takeIn w k e) := by
  obtain ⟨c', kept, gone, hsettings, hdisk, hentries, hcuts, htaken⟩ := h.takeIn_spills w e
  have hgone := hcuts.nodup_gone (h.nodup_front e.weight)
  have hin : ∀ k' ∈ (gone.map Prod.fst).reverse, c'.inMemory k' = true := by
    intro k' hk'
    refine h.inMemory_of_insert hentries ?_
    show k' ∈ ((k, e.weight) :: c.order.items).map Prod.fst
    rw [← hcuts.map_fst]
    exact List.mem_append_right _ (List.mem_reverse.1 hk')
  obtain ⟨hpasses, hleft⟩ := spillAll_passes (w := w) (gone.map Prod.fst).reverse
    (fun t ht => h.disk t (hdisk.symm.trans ht)) (List.nodup_reverse.2 hgone) hin
  have hkept : k ∉ (gone.map Prod.fst).reverse := by
    rw [List.mem_reverse, hcuts.head_gone_iff (h.nodup_front e.weight)]
    exact not_not_intro hfits
  rw [htaken]
  refine ⟨?_, _, _, hpasses.congr hsettings hdisk⟩
  rw [hleft, Table.get?_foldl_erase, if_neg hkept, hentries, Table.get?_insert, if_pos rfl]

/-- An entry that does not fit into memory by itself is spilled after all the others. -/
theorem Vacant.takeIn_passed {c : Overflow K V} {k : K} (h : c.Vacant k) (w : World) {e : Entry V}
    (hfull : ¬ c.settings.memoryBound.Allows [(k, e.weight)]) :
    ∃ s : Step (Overflow K V) (Eviction K V) Unit,
      Passes c.order.keys.reverse (c.filesBefore w k) c w s ∧ s.state.entries.get? k = none ∧
      (c.takeIn w k e).state = (s.state.spill s.world k e).state ∧
      (c.takeIn w k e).world = (s.state.spill s.world k e).world := by
  obtain ⟨c', kept, gone, hsettings, hdisk, hentries, hcuts, htaken⟩ := h.takeIn_spills w e
  -- nothing is kept, and `k` is at the very end of the keys to be spilled
  have hall : (gone.map Prod.fst).reverse = c.order.keys.reverse ++ [k] := by
    have hwhole := hcuts.whole
    rw [hcuts.kept_eq_nil hfull, List.nil_append] at hwhole
    rw [hwhole, ← List.reverse_cons]
    rfl
  obtain ⟨hothers, hleft⟩ := spillAll_passes (w := w) c.order.keys.reverse
    (fun t ht => h.disk t (hdisk.symm.trans ht)) (List.nodup_reverse.2 h.order.nodup_keys)
    fun k' hk' => h.inMemory_of_insert hentries (List.mem_cons_of_mem k (List.mem_reverse.1 hk'))
  have hfiles : c.order.keys.reverse.countP (c'.keyTakesFile w) = c.filesBefore w k := by
    rw [h.filesBefore_eq, List.countP_reverse]
    refine List.countP_congr fun k' hk' => ?_
    have hne : k' ≠ k := fun heq => h.not_mem_keys (heq ▸ hk')
    unfold keyTakesFile
    rw [hentries, Table.get?_insert, if_neg hne, funext (takesFile_congr hsettings rfl)]
  rw [hfiles] at hothers
  have hlast : (c'.spillAll w c.order.keys.reverse).state.entries.get? k = some e := by
    have hnot : k ∉ c.order.keys.reverse := fun hk => h.not_mem_keys (List.mem_reverse.1 hk)
    rw [hleft, Table.get?_foldl_erase, if_neg hnot, hentries, Table.get?_insert, if_pos rfl]
  rw [htaken, hall, spillAll_append]
  generalize c'.spillAll w c.order.keys.reverse = s at hothers hlast ⊢
  refine ⟨s.mapState fun c => { c with entries := c.entries.erase k }, ?_, ?_, ?_, ?_⟩
  · exact ⟨hothers.settings.trans hsettings, hothers.now, hothers.sameTiers,
      fun hnone => hothers.memoryOnly (hdisk.trans hnone),
      fun t ht => hothers.overDisk t (hdisk.trans ht)⟩
  · exact (Table.get?_erase _ _ _).trans (if_pos rfl)
  all_goals
    rw [Step.bind, spillAll]
    simp only [hlast]
    rfl

/-! ## What is found -/

/-- The value is found if `p` holds, and otherwise nothing. -/
def Finds (p : Prop) (v : V) (found : Option (Shared V)) : Prop :=
  (p ∧ found.map Shared.value = some v) ∨ (¬ p ∧ found = none)

omit [DecidableEq K] in
theorem Finds.congr {p q : Prop} {v : V} {found : Option (Shared V)} (h : Finds p v found)
    (hpq : p ↔ q) : Finds q v found := by
  unfold Finds
  rw [← hpq]
  exact h

omit [DecidableEq K] in
theorem Finds.iff {p : Prop} {v : V} {found : Option (Shared V)} (h : Finds p v found) :
    found.map Shared.value = some v ↔ p := by
  rcases h with ⟨hp, hfound⟩ | ⟨hp, hfound⟩
  · exact ⟨fun _ => hp, fun _ => hfound⟩
  · rw [hfound]
    exact ⟨nofun, fun hp' => absurd hp' hp⟩

omit [DecidableEq K] in
theorem Finds.eq_none {p : Prop} {v : V} {found : Option (Shared V)} (h : Finds p v found)
    (hp : ¬ p) : found = none := by
  rcases h with ⟨hp', -⟩ | ⟨-, hfound⟩
  · exact absurd hp' hp
  · exact hfound

theorem peek_of_get? {c : Overflow K V} {w : World} {k : K} {e : Entry V}
    (hget : c.entries.get? k = some e) (hlive : c.expiration w e = none) :
    c.peek w k = some e.value := by
  rw [peek, hget]
  simp only [hlive, Option.isNone_none, if_true]

theorem peek_of_disk {c : Overflow K V} {w : World} {k : K} {t : DiskTier K}
    (hget : c.entries.get? k = none) (hdisk : c.disk = some t) :
    c.peek w k = (t.view? c.settings.codec w.area k).bind fun found =>
      if (found.1.expiration w.now c.settings.timeToIdle).isNone then some ⟨w.nextId, found.2⟩
      else none := by
  rw [peek, hget, hdisk]
  rfl

theorem peek_of_absent {c : Overflow K V} {w : World} {k : K} (hget : c.entries.get? k = none)
    (hnot : ∀ t, c.disk = some t → t.contains k = false) : c.peek w k = none := by
  cases hdisk : c.disk with
  | none =>
    rw [peek, hget, hdisk]
    rfl
  | some t =>
    have hstamps : t.stamps? k = none := by
      rw [← Option.isNone_iff_eq_none, ← Option.not_isSome, ← t.contains_eq_isSome, hnot t hdisk]
      rfl
    rw [peek_of_disk hget hdisk, DiskTier.view?, hstamps]
    rfl

theorem found_written {c : Overflow K V} {w : World} {t : DiskTier K} {k : K} {v : V}
    {area : FileArea} {bytes : List UInt8} {stamps : Timestamps} (ht : t.Sound)
    (haccepts : t.accepts area = true) (hget : c.entries.get? k = none)
    (hdisk : c.disk = some (t.withWritten k bytes.length stamps))
    (harea : w.area = (t.write area k bytes stamps).area)
    (hlive : stamps.expiration w.now c.settings.timeToIdle = none) (hmax : t.bound.max ≠ 0)
    (htrue : ∀ v', c.settings.codec.read bytes = .ok v' → v' = v) :
    Finds ((∃ v', c.settings.codec.read bytes = .ok v') ∧ t.bound.HasRoomFor bytes.length) v
      (c.peek w k) := by
  have hpushed := ht.mem_pushed_iff k bytes.length
  rw [Bound.allows_iff_hasRoomFor hmax] at hpushed
  rw [peek_of_disk hget hdisk, harea, ht.view?_written haccepts]
  by_cases hfits : t.bound.HasRoomFor bytes.length
  · rw [if_neg fun hk => hpushed.1 hk hfits]
    cases hread : c.settings.codec.read bytes with
    | error fault => exact .inr ⟨nofun, rfl⟩
    | ok v' =>
      refine .inl ⟨⟨⟨v', rfl⟩, hfits⟩, ?_⟩
      simp [Except.toOption, hlive, htrue v' hread]
  · rw [if_pos (hpushed.2 hfits)]
    exact .inr ⟨fun h => hfits h.2, rfl⟩

theorem Spilled.found {c : Overflow K V} {w : World} {k : K} {e : Entry V}
    {s : Step (Overflow K V) (Eviction K V) Unit} (hs : Spilled c w k e s)
    (hsound : ∀ t, c.disk = some t → t.Sound) (hget : c.entries.get? k = none)
    (hnot : ∀ t, c.disk = some t → t.contains k = false) (hlive : c.expiration w e = none)
    (hmax : ∀ t, c.disk = some t → t.bound.max ≠ 0)
    (htrue : ∀ bytes v, c.settings.codec.encode e.value.value = .ok bytes →
      c.settings.codec.read bytes = .ok v → v = e.value.value) :
    Finds (∃ t, c.disk = some t ∧ t.Keeps c.settings.codec w.area e.value.value) e.value.value
      (s.state.peek s.world k) := by
  cases hs with
  | expired x hx => cases hlive.symm.trans hx
  | dropped hlive' hdisk =>
    refine .inr ⟨?_, peek_of_absent hget hnot⟩
    rintro ⟨t, ht, -⟩
    cases hdisk.symm.trans ht
  | unencodable hlive' t hdisk fault hencode =>
    refine .inr ⟨?_, peek_of_absent hget hnot⟩
    rintro ⟨t', ht', -, bytes, v', hencode', -⟩
    cases hencode.symm.trans hencode'
  | refused hlive' t hdisk bytes hencode haccepts =>
    refine .inr ⟨?_, peek_of_absent hget fun t' ht' => ?_⟩
    · rintro ⟨t', ht', haccepts', -⟩
      rw [← Option.some.inj (hdisk.symm.trans ht'), haccepts] at haccepts'
      cases haccepts'
    · rw [← Option.some.inj ht']
      show (t.slots.erase k).contains k = false
      rw [Table.contains_erase, decide_eq_false (not_not_intro rfl), Bool.false_and]
  | written hlive' t hdisk bytes hencode haccepts =>
    refine .congr (found_written (hsound t hdisk) haccepts hget rfl rfl hlive (hmax t hdisk)
      (htrue bytes · hencode)) ⟨?_, ?_⟩
    · rintro ⟨⟨v', hread⟩, hfits⟩
      exact ⟨t, hdisk, haccepts, bytes, v', hencode, hread, hfits⟩
    · rintro ⟨t', ht', -, bytes', v', hencode', hread, hfits⟩
      obtain rfl := Option.some.inj (hdisk.symm.trans ht')
      obtain rfl := Except.ok.inj (hencode.symm.trans hencode')
      exact ⟨⟨v', hread⟩, hfits⟩

theorem Vacant.found_takeIn {c : Overflow K V} {k : K} (h : c.Vacant k) {w : World} {e : Entry V}
    (hlive : c.expiration w e = none) (hmax : ∀ t, c.disk = some t → t.bound.max ≠ 0)
    (htrue : ∀ bytes v, c.settings.codec.encode e.value.value = .ok bytes →
      c.settings.codec.read bytes = .ok v → v = e.value.value) :
    Finds (c.settings.memoryBound.Allows [(k, e.weight)] ∨ c.FitsDisk w k e.value.value)
      e.value.value ((c.takeIn w k e).state.peek (c.takeIn w k e).world k) := by
  by_cases hfits : c.settings.memoryBound.Allows [(k, e.weight)]
  · obtain ⟨hget, ks, files, hpasses⟩ := h.takeIn_kept w hfits
    refine .inl ⟨.inl hfits, ?_⟩
    rw [peek_of_get? hget ((hpasses.expiration e).trans hlive)]
    rfl
  · obtain ⟨s, hpasses, hget, hstate, hworld⟩ := h.takeIn_passed w hfits
    have hnot : ∀ t', s.state.disk = some t' → t'.contains k = false := by
      intro t' ht'
      obtain ⟨t, ht, hfollows⟩ := hpasses.tier ht'
      refine hfollows.absent k (fun hk => h.not_mem_keys (List.mem_reverse.1 hk)) ?_
      rw [← onDisk_of_disk ht]
      exact h.notOnDisk
    have hroom : ∀ t', s.state.disk = some t' → t'.bound.max ≠ 0 := by
      intro t' ht'
      obtain ⟨t, ht, hfollows⟩ := hpasses.tier ht'
      rw [hfollows.bound]
      exact hmax t ht
    have hfound := (spilled hpasses.sound s.world k e).found hpasses.sound hget hnot
      ((hpasses.expiration e).trans hlive) hroom (by rwa [hpasses.settings])
    rw [hstate, hworld]
    exact hfound.congr ((hpasses.keeps_iff e.value.value).trans (or_iff_right hfits).symm)

/-! ## Storing and looking up at once -/

/-- Stores a value and looks its key up at once. -/
def readBack (c : Overflow K V) (w : World) (k : K) (value : Shared V) :
    Step (Overflow K V) (Eviction K V) (Option (Shared V)) :=
  (c.insert w k value).bind fun _ c w => c.get w k

omit [DecidableEq K] in
theorem allows_weigh_iff {c : Overflow K V} (hmax : c.settings.memoryBound.max ≠ 0) (k : K) (v : V) :
    c.settings.memoryBound.Allows [(k, c.weigh v)] ↔ c.FitsMemory v := by
  rw [Bound.allows_iff_hasRoomFor hmax]
  unfold FitsMemory weigh memoryBytes
  cases c.settings.memoryBound with
  | entries max => exact Iff.rfl
  | bytes max => exact Iff.rfl

theorem filesBefore_cleared (c : Overflow K V) (w : World) (k : K) :
    ((c.dropMemory k).dropDisk k).filesBefore (c.clearedWorld w k) k = c.filesBefore w k := by
  have htakes : ((c.dropMemory k).dropDisk k).takesFile (c.clearedWorld w k) = c.takesFile w :=
    funext (takesFile_congr rfl (c.now_clearedWorld w k))
  unfold filesBefore
  rw [htakes]
  show (c.entries.entries.filter fun e => decide (e.1 ≠ k)).countP _ = _
  rw [List.countP_filter]
  refine List.countP_congr fun e _ => ?_
  rw [Bool.and_right_comm, Bool.and_self]

/-- What lay under the key before makes no difference to whether a value fits onto the disk. -/
theorem fitsDisk_cleared (c : Overflow K V) (w : World) (k : K) (v : V) :
    ((c.dropMemory k).dropDisk k).FitsDisk (c.clearedWorld w k) k v ↔ c.FitsDisk w k v := by
  have haccepts (t : DiskTier K) :
      DiskTier.accepts { t.without k with nextFileId := t.nextFileId + c.filesBefore w k }
        (c.clearedWorld w k).area =
      DiskTier.accepts { t with nextFileId := t.nextFileId + c.filesBefore w k } w.area :=
    DiskTier.accepts_congr (clearedWorld_sameTiers c w k) rfl rfl
  unfold FitsDisk
  rw [filesBefore_cleared]
  constructor
  · rintro ⟨t', ht', htaken, hkeeps⟩
    obtain ⟨t, ht, rfl⟩ := Option.map_eq_some_iff.1 ht'
    exact ⟨t, ht, (haccepts t).symm.trans htaken, hkeeps⟩
  · rintro ⟨t, ht, htaken, hkeeps⟩
    exact ⟨t.without k, Option.map_eq_some_iff.2 ⟨t, ht, rfl⟩, (haccepts t).trans htaken, hkeeps⟩

theorem Sound.found_readBack {c : Overflow K V} (h : c.Sound) {w : World} {k : K} {value : Shared V}
    (hlive : c.expiration w (c.freshEntry w value) = none)
    (hmemory : c.settings.memoryBound.max ≠ 0) (hdisk : ∀ t, c.disk = some t → t.bound.max ≠ 0)
    (htrue : ∀ bytes v, c.settings.codec.encode value.value = .ok bytes →
      c.settings.codec.read bytes = .ok v → v = value.value) :
    Finds (c.FitsMemory value.value ∨ c.FitsDisk w k value.value) value.value
      (c.readBack w k value).answer := by
  have hlive' : ((c.dropMemory k).dropDisk k).expiration (c.clearedWorld w k)
      (c.freshEntry w value) = none := by
    unfold Overflow.expiration at *
    rw [c.now_clearedWorld w k]
    exact hlive
  have hmax : ∀ t, ((c.dropMemory k).dropDisk k).disk = some t → t.bound.max ≠ 0 := by
    intro t' ht'
    obtain ⟨t, ht, rfl⟩ := Option.map_eq_some_iff.1 ht'
    exact hdisk t ht
  have hfound := (h.dropBoth k).found_takeIn hlive' hmax htrue
  show Finds _ _ ((c.insert w k value).state.get (c.insert w k value).world k).answer
  rw [get_answer, h.insert_eq]
  refine hfound.congr (or_congr (allows_weigh_iff hmemory k value.value) ?_)
  exact fitsDisk_cleared c w k value.value

theorem Sound.absent_of_miss {c : Overflow K V} (h : c.Sound) {w : World} {k : K}
    (hmiss : (c.get w k).answer = none) (later : World) :
    (c.get w k).state.contains later k = false := by
  have hmiss : (c.find w k).answer = none := hmiss
  have hfound := find_found c w k
  have hindex : (c.find w k).state.keyIndex.contains k = false := by
    generalize c.find w k = s at hfound hmiss ⊢
    cases hfound with
    | absent hmemory hdisk =>
      show c.keyIndex.contains k = false
      rw [h.index, hmemory, hdisk]
      rfl
    | gone hs =>
      cases hs with
      | expiredInMemory hget hx =>
        rw [expireMemory, hget]
        simp [Step.mapAnswer]
      | expiredOnDisk hmemory hdisk hx => simp [Step.mapAnswer, expireDisk]
      | lost hmemory hdisk hlive htake hunread => simp [Step.mapAnswer, forget]
    | hit hget hlive => cases hmiss
    | promoted hmemory hdisk hstamps hlive hcontent hread => cases hmiss
  rw [get_eq]
  unfold contains
  rw [show ((c.find w k).mapState (countLookup (c.find w k).answer)).state.keyIndex.contains k = false
    from hindex]
  rfl

/-! ## Runs -/

/-- Whatever was done to a cache before: a value that is stored is found by the next look-up of its key
if it fits into memory by itself, or else if the cache is over disk and it fits there. Otherwise nothing
is found, and the key is absent from then on. -/
theorem read_back_run (b : Builder) (st : Storage K V) {w w' : World} {c : Overflow K V}
    (hbuilt : b.buildOverflow st w = (.ok c, w')) (turns : List (Turn K V))
    (hlive : ∀ d, b.config.timeToLive = some d → 0 < d.nanos)
    (hidle : ∀ d, b.config.timeToIdle = some d → 0 < d.nanos)
    (hnow : (c.run w' turns).world.now < maxCount) (k : K) (value : Shared V)
    (htrue : ∀ bytes v, st.codec.encode value.value = .ok bytes → st.codec.read bytes = .ok v →
      v = value.value) :
    (((c.run w' turns).state.readBack (c.run w' turns).world k value).answer.map Shared.value =
        some value.value ↔
      (c.run w' turns).state.FitsMemory value.value ∨ b.config.persistence = .swapOnOverflow ∧
        (c.run w' turns).state.FitsDisk (c.run w' turns).world k value.value) ∧
    (¬ ((c.run w' turns).state.FitsMemory value.value ∨ b.config.persistence = .swapOnOverflow ∧
        (c.run w' turns).state.FitsDisk (c.run w' turns).world k value.value) →
      ((c.run w' turns).state.readBack (c.run w' turns).world k value).answer = none ∧
      ((c.run w' turns).state.readBack (c.run w' turns).world k value).state.contains
        ((c.run w' turns).state.readBack (c.run w' turns).world k value).world k = false) := by
  have hstart := Builder.built hbuilt
  have hsound := sound_run (w := w') turns hstart.sound
  have hsame := sameSetup_run (w := w') turns hstart.sound
  have hsettings := hsame.settings.trans hstart.setup.1
  obtain ⟨hmemory, hdisk⟩ := Builder.max_of_built hbuilt
  have htier : ∀ t, (c.run w' turns).state.disk = some t →
      b.config.persistence = .swapOnOverflow ∧ t.bound = b.config.diskBound := by
    intro t ht
    have hbound := hsame.bound
    rw [ht, Option.map_some] at hbound
    refine ⟨?_, hstart.setup.2 t.bound hbound.symm⟩
    cases hstart with
    | memoryOnly hpersistence => cases hbound
    | overDisk hpersistence hplace hunwritable => exact hpersistence
  -- from here on only these facts about the state and the clock are used, not how they were reached
  generalize (c.run w' turns).state = s at hsound hsettings htier ⊢
  generalize (c.run w' turns).world = ws at hnow ⊢
  have hfound : Finds (s.FitsMemory value.value ∨ b.config.persistence = .swapOnOverflow ∧
      s.FitsDisk ws k value.value) value.value (s.readBack ws k value).answer := by
    refine (hsound.found_readBack ?_ ?_ ?_ ?_).congr (or_congr_right ⟨fun h => ⟨?_, h⟩, And.right⟩)
    · show (Timestamps.create ws.now s.settings.timeToLive s.settings.timeToIdle).expiration ws.now
        s.settings.timeToIdle = none
      rw [hsettings]
      exact Timestamps.live_create hnow hlive hidle
    · rw [hsettings]
      exact hmemory
    · intro t ht
      rw [(htier t ht).2]
      exact hdisk (htier t ht).1
    · rw [hsettings]
      exact htrue
    · obtain ⟨t, ht, -⟩ := h
      exact (htier t ht).1
  refine ⟨hfound.iff, fun hnot => ⟨hfound.eq_none hnot, ?_⟩⟩
  exact (hsound.insert ws k value).absent_of_miss (hfound.eq_none hnot) _

/-- Values that are their own bytes, under numbers. -/
def textStorage : Storage Nat (List UInt8) where
  codec := { encode := .ok, decode := fun bytes => .ok (bytes, []) }
  footprint := 1
  hash := UInt64.ofNat

/-- The options of a cache of two bytes in memory over three bytes on disk. -/
def textBuilder : Builder :=
  .ofConfig "pair"
    { memoryBound := .bytes 2, diskBound := .bytes 3, persistence := .swapOnOverflow
      timeToLive := some ⟨100⟩, diskDirectory := some "d" }

def textCache : Overflow Nat (List UInt8) :=
  .make (textBuilder.overflowSettings textStorage)
    (some ⟨some ⟨0, ["d"], "pair-"⟩, .empty, .empty, .bytes 3, 0⟩) 0

theorem text_built : textBuilder.buildOverflow textStorage bareWorld = (.ok textCache, pairWorld) :=
  Builder.buildOverflow_of_opens rfl rfl pair_opens

/-- The text cache after two texts were stored, each of which fills memory. -/
def fullText : Step (Overflow Nat (List UInt8)) (Record Nat (List UInt8)) Unit :=
  textCache.run pairWorld
    [⟨0, .request (.insert 1 ⟨0, [1, 1]⟩)⟩, ⟨5, .request (.insert 2 ⟨1, [2, 2]⟩)⟩]

def fullTextTier : DiskTier Nat :=
  ⟨some ⟨0, ["d"], "pair-"⟩, .insert .empty 1 ⟨0, ⟨100, 0⟩⟩, ⟨[(1, 2)], 2⟩, .bytes 3, 1⟩

theorem disk_fullText : fullText.state.disk = some fullTextTier := rfl

/-- A text of three bytes goes through memory to the disk, where it takes all there is; one of four
bytes takes everything else along and is lost. -/
theorem read_back_run_text :
    (fullText.state.readBack fullText.world 3 ⟨2, [7, 8, 9]⟩).answer.map Shared.value =
      some [7, 8, 9] ∧
    (fullText.state.readBack fullText.world 3 ⟨2, [7, 8, 9, 10]⟩).answer = none ∧
    (fullText.state.readBack fullText.world 3 ⟨2, [7, 8, 9, 10]⟩).state.contains
      (fullText.state.readBack fullText.world 3 ⟨2, [7, 8, 9, 10]⟩).world 3 = false := by
  have hread (value : Shared (List UInt8)) := read_back_run textBuilder textStorage text_built
    [⟨0, .request (.insert 1 ⟨0, [1, 1]⟩)⟩, ⟨5, .request (.insert 2 ⟨1, [2, 2]⟩)⟩]
    (fun d hd => by rw [← Option.some.inj hd]; decide) nofun (by decide) 3 value
    (fun bytes v hencode hdecode => by
      rw [← Except.ok.inj hdecode, ← Except.ok.inj hencode])
  refine ⟨(hread _).1.2 (.inr ⟨rfl, fullTextTier, rfl, by decide, _, _, rfl, rfl, by decide⟩),
    (hread _).2 ?_⟩
  rintro (hmemory | ⟨-, t, ht, -, bytes, v', hencode, -, hroom⟩)
  · exact absurd hmemory (by decide)
  · obtain rfl : fullTextTier = t := Option.some.inj (disk_fullText.symm.trans ht)
    rw [← Except.ok.inj hencode] at hroom
    exact absurd hroom (by decide)

end Overflow

end CacheLayer
