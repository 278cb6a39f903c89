import CacheLayer.Proofs.Registry.History

/-!
# The private directories of a registry

Whatever is done with a registry, with builders and with caches, no private directory is missing and none
is left over. Each belongs to one cache that somebody refers to, that swaps to disk and that nobody closed,
and lies where the builder of the cache said.

* `Session.lodging?` : the private directory that the cache of a number uses.
* `History.Housed` : the caches that are alive and their directories; `Housed.move` : every move keeps them
  matched.
* `History.Stays` : a cache goes on using the directory that it got, or none; `Move.stays`.
* `History.Accounted`, `History.directories_run` : which directories there are after a run.
-/

namespace CacheLayer

variable {K : Type u} {V : Type v} {T : Type w}

/-! ## Lodgings -/

namespace Session

variable {s s' : Session K V T} {n n' tier : Nat}

/-- The number of the private directory that the cache of a number uses, if it is alive and uses one. -/
def lodging? (s : Session K V T) (n : Nat) : Option Nat := (s.alive.get? n).bind Cache.tier?

theorem lodging?_of_get? {c : Cache K V} (hget : s.alive.get? n = some c) : s.lodging? n = c.tier? := by
  rw [lodging?, hget, Option.bind_some]

theorem get?_of_lodging? (h : s.lodging? n = some tier) :
    ∃ c, s.alive.get? n = some c ∧ c.tier? = some tier := Option.bind_eq_some_iff.1 h

theorem contains_of_lodging? (h : s.lodging? n = some tier) : s.alive.contains n = true := by
  obtain ⟨c, hget, -⟩ := get?_of_lodging? h
  exact Table.contains_of_get? hget

theorem lodging?_of_insert {c : Cache K V} (h : s'.alive = s.alive.insert n c) (m : Nat) :
    s'.lodging? m = if m = n then c.tier? else s.lodging? m := by
  unfold lodging?
  rw [h, Table.get?_insert]
  split <;> rfl

theorem lodging?_of_works [DecidableEq K] {c : Cache K V} {w : World} {op : Cache.Op K V}
    (hopen : op ≠ .close) (hget : s.alive.get? n = some c)
    (h : s'.alive = s.alive.insert n (c.perform w op)) (m : Nat) : s'.lodging? m = s.lodging? m := by
  refine (lodging?_of_insert h m).trans ?_
  split
  · rename_i hm
    rw [hm, lodging?_of_get? hget]
    exact (c.ownFiles_perform w hopen).number
  · rfl

theorem lodging?_of_closes {c : Cache K V} {w : World}
    (h : s'.alive = s.alive.insert n (c.close w).state) (m : Nat) :
    s'.lodging? m = if m = n then none else s.lodging? m := by
  refine (lodging?_of_insert h m).trans ?_
  rw [show (c.close w).state.tier? = none from c.store.backend.number?_close w]

variable [DecidableEq T]

theorem Tied.lodging?_inj (h : s.Tied) (hn : s.lodging? n = some tier)
    (hn' : s.lodging? n' = some tier) : n = n' := by
  obtain ⟨c, hget, htier⟩ := get?_of_lodging? hn
  obtain ⟨c', hget', htier'⟩ := get?_of_lodging? hn'
  exact h.ownTier n n' c c' tier hget hget' htier htier'

theorem Tied.lodging?_lt (h : s.Tied) (hn : s.lodging? n = some tier) :
    tier < s.world.area.nextTier := by
  obtain ⟨c, hget, htier⟩ := get?_of_lodging? hn
  exact h.located n c tier hget htier

theorem Tied.unborn (h : s.Tied) : s.alive.contains s.nextNumber = false :=
  Bool.eq_false_iff.2 fun halive => Nat.lt_irrefl _ (h.fresh _ halive)

theorem Tied.lodging?_unborn (h : s.Tied) : s.lodging? s.nextNumber = none := by
  rw [lodging?, Table.get?_eq_none_of_contains h.unborn, Option.bind_none]

omit [DecidableEq T] in
theorem Drops.lodging? (hd : Drops s s') (n : Nat) :
    s'.lodging? n = s.lodging? n ∨ s'.lodging? n = none := by
  cases hget : s'.alive.get? n with
  | none => exact .inr (by rw [Session.lodging?, hget, Option.bind_none])
  | some c =>
    exact .inl ((lodging?_of_get? hget).trans (lodging?_of_get? (hd.within n c hget)).symm)

end Session

/-! ## Caches and their directories -/

namespace History

/-- The caches that are alive are housed as their origins say. The directories of the file area that the
history began with are as they were, and besides there is none. -/
structure Housed (before : FileArea) (h : History K V T) : Prop where
  later : before.nextTier ≤ h.session.world.area.nextTier
  known : ∀ n, h.session.alive.contains n = true → ∃ o, h.origins n = some o ∧
    ((h.session.lodging? n).isSome = true ↔ o.Swaps ∧ n ∉ h.closed)
  placed : ∀ n tier, h.session.lodging? n = some tier → before.nextTier ≤ tier ∧
    ∃ o, h.origins n = some o ∧
      (h.session.world.area.tiers.get? tier).map TierDirectory.parent = some o.parent
  rest : ∀ tier, (∀ n, h.session.lodging? n ≠ some tier) →
    h.session.world.area.tiers.get? tier = before.tiers.get? tier ∨
      before.nextTier ≤ tier ∧ h.session.world.area.tiers.get? tier = none
  past : ∀ n ∈ h.closed, n < h.session.nextNumber

namespace Housed

variable [DecidableEq T] {before : FileArea} {h h' : History K V T}

theorem drops (hh : h.Housed before) (htied : h.session.Tied) {s : Session K V T}
    (hd : Session.Drops h.session s) : Housed before { h with session := s } where
  later := hd.nextTier ▸ hh.later
  known n hn := by
    obtain ⟨c, hget⟩ := Table.get?_of_contains hn
    have hbefore := hd.within n c hget
    obtain ⟨o, ho, hlodged⟩ := hh.known n (Table.contains_of_get? hbefore)
    rw [Session.lodging?_of_get? hbefore] at hlodged
    refine ⟨o, ho, ?_⟩
    rw [Session.lodging?_of_get? hget]
    exact hlodged
  placed n tier hn := by
    obtain ⟨c, hget, htier⟩ := Session.get?_of_lodging? hn
    have hbefore : h.session.lodging? n = some tier :=
      (Session.lodging?_of_get? (hd.within n c hget)).trans htier
    obtain ⟨hle, o, ho, hplaced⟩ := hh.placed n tier hbefore
    exact ⟨hle, o, ho, (congrArg (Option.map _) (hd.tiers_of_kept htied hget htier)).trans hplaced⟩
  rest tier hfree := by
    by_cases hused : ∃ n, h.session.lodging? n = some tier
    · -- the cache that used it is gone, and its directory with it
      obtain ⟨n, hn⟩ := hused
      obtain ⟨c, hget, htier⟩ := Session.get?_of_lodging? hn
      cases hgone : s.alive.get? n with
      | none => exact .inr ⟨(hh.placed n tier hn).1, hd.deleted n c tier hget hgone htier⟩
      | some c' =>
        obtain rfl := Option.some.inj ((hd.within n c' hgone).symm.trans hget)
        exact absurd ((Session.lodging?_of_get? hgone).trans htier) (hfree n)
    · have hunused := not_exists.1 hused
      have hsame : s.world.area.tiers.get? tier = h.session.world.area.tiers.get? tier :=
        hd.tiers tier fun n c hget _ htier =>
          hunused n ((Session.lodging?_of_get? hget).trans htier)
      show s.world.area.tiers.get? tier = _ ∨ _ ∧ s.world.area.tiers.get? tier = _
      rw [hsame]
      exact hh.rest tier hunused
  past n hn := hd.nextNumber ▸ hh.past n hn

omit [DecidableEq T] in
theorem passes (hh : h.Housed before) {w : World} (hw : h.session.world.area.Leaves w.area) :
    Housed before { h with session := { h.session with world := w } } where
  later := Nat.le_trans hh.later hw.nextTier
  known := hh.known
  placed n tier hn := by
    obtain ⟨hle, o, ho, hplaced⟩ := hh.placed n tier hn
    exact ⟨hle, o, ho, (congrArg (Option.map _) (hw.tiers tier)).trans hplaced⟩
  rest tier hfree := by
    show w.area.tiers.get? tier = _ ∨ _ ∧ w.area.tiers.get? tier = _
    rw [hw.tiers]
    exact hh.rest tier hfree
  past := hh.past

/-- What is recorded of the cache to come does not matter to those that are there. -/
theorem plans (hh : h.Housed before) (htied : h.session.Tied) (o? : Option Origin) :
    Housed before { h with origins := Function.update h.origins h.session.nextNumber o? } := by
  have horigins (n : Nat) (hn : h.session.alive.contains n = true) :
      Function.update h.origins h.session.nextNumber o? n = h.origins n :=
    Function.update_of_ne (Nat.ne_of_lt (htied.fresh n hn)) ..
  refine ⟨hh.later, fun n hn => ?_, fun n tier hn => ?_, hh.rest, hh.past⟩
  · obtain ⟨o, ho, hlodged⟩ := hh.known n hn
    exact ⟨o, (horigins n hn).trans ho, hlodged⟩
  · obtain ⟨hle, o, ho, hplaced⟩ := hh.placed n tier hn
    exact ⟨hle, o, (horigins n (Session.contains_of_lodging? hn)).trans ho, hplaced⟩

theorem builds [DecidableEq K] (hh : h.Housed before) (htied : h.session.Tied) {o : Origin}
    {c : Cache K V} {w : World} (ho : h.origins h.session.nextNumber = some o)
    (hfounded : c.store.backend.Founded h.session.world.area w.area)
    (hhoused : o.Houses h.session.world.area c.tier? w.area) :
    Housed before { h with
      session := (({ h.session with world := w } : Session K V T).adopt c).2 } := by
  have hlodging (m : Nat) : (({ h.session with world := w } : Session K V T).adopt c).2.lodging? m =
      if m = h.session.nextNumber then c.tier? else h.session.lodging? m :=
    Session.lodging?_of_insert rfl m
  constructor
  · exact Nat.le_trans hh.later hfounded.grows.nextTier
  · intro m hm
    rw [hlodging]
    rw [Session.adopt, Table.contains_insert, Bool.or_eq_true, decide_eq_true_eq] at hm
    split
    · rename_i hnew
      subst hnew
      have hopen : h.session.nextNumber ∉ h.closed := fun hclosed =>
        Nat.lt_irrefl _ (hh.past _ hclosed)
      exact ⟨o, ho, hhoused.swaps.trans (and_iff_left hopen).symm⟩
    · rename_i hold
      exact hh.known m (hm.resolve_left hold)
  · intro m tier hm
    rw [hlodging] at hm
    split at hm
    · rename_i hnew
      subst hnew
      exact ⟨Nat.le_trans hh.later (hfounded.own tier hm).1, o, ho, hhoused.placed tier hm⟩
    · obtain ⟨hle, o', ho', hplaced⟩ := hh.placed m tier hm
      -- the directory of the new cache was not there before
      have hother : c.tier? ≠ some tier := fun hown =>
        Nat.not_lt_of_le (hfounded.own tier hown).1 (htied.lodging?_lt hm)
      exact ⟨hle, o', ho', (congrArg (Option.map _) (hhoused.others tier hother)).trans hplaced⟩
  · intro tier hfree
    have hother : c.tier? ≠ some tier := by
      have hnew := hfree h.session.nextNumber
      rwa [hlodging, if_pos rfl] at hnew
    show w.area.tiers.get? tier = _ ∨ _ ∧ w.area.tiers.get? tier = _
    rw [hhoused.others tier hother]
    refine hh.rest tier fun m hm => hfree m ?_
    have hold : m ≠ h.session.nextNumber := by
      rintro rfl
      cases htied.lodging?_unborn.symm.trans hm
    rw [hlodging, if_neg hold]
    exact hm
  · exact fun m hm => Nat.lt_succ_of_lt (hh.past m hm)

omit [DecidableEq T] in
theorem works [DecidableEq K] (hh : h.Housed before) {n : Nat} {c : Cache K V} {w : World}
    {op : Cache.Op K V} (hopen : op ≠ .close) (hget : h.session.alive.get? n = some c)
    (hw : w.area = h.session.world.area) :
    Housed before { h with session := { h.session with
      alive := h.session.alive.insert n (c.perform w op), world := c.worldAfter w op } } := by
  have hworks : h.session.world.area.WorksIn c.tier? (c.worldAfter w op).area :=
    hw ▸ (c.ownFiles_perform w hopen).works
  have hlodging (m : Nat) : ({ h.session with
      alive := h.session.alive.insert n (c.perform w op), world := c.worldAfter w op } :
        Session K V T).lodging? m = h.session.lodging? m := Session.lodging?_of_works hopen hget rfl m
  constructor
  · exact hworks.nextTier ▸ hh.later
  · intro m hm
    rw [hlodging]
    rw [Table.contains_insert_of_contains (Table.contains_of_get? hget)] at hm
    exact hh.known m hm
  · intro m tier hm
    rw [hlodging] at hm
    obtain ⟨hle, o, ho, hplaced⟩ := hh.placed m tier hm
    exact ⟨hle, o, ho, (hworks.places tier).trans hplaced⟩
  · intro tier hfree
    have hunused (m : Nat) : h.session.lodging? m ≠ some tier := fun hm =>
      hfree m ((hlodging m).trans hm)
    have hother : c.tier? ≠ some tier := fun hown =>
      hunused n ((Session.lodging?_of_get? hget).trans hown)
    show (c.worldAfter w op).area.tiers.get? tier = _ ∨
      _ ∧ (c.worldAfter w op).area.tiers.get? tier = _
    rw [hworks.tiers tier hother]
    exact hh.rest tier hunused
  · exact hh.past

theorem closes (hh : h.Housed before) (htied : h.session.Tied) {n : Nat} {c : Cache K V} {w : World}
    (registry : Option (Registry T)) (hget : h.session.alive.get? n = some c)
    (hw : w.area = h.session.world.area) {shut struck : List Nat}
    (hclosed : ∀ m, m ∈ shut ++ struck ↔ m ∈ h.closed ∨ m = n) :
    Housed before { h with
      session := { h.session with
        registry
        alive := h.session.alive.insert n (c.close w).state, world := (c.close w).world }
      shut
      struck } := by
  have hlodging (m : Nat) : ({ h.session with
      registry
      alive := h.session.alive.insert n (c.close w).state, world := (c.close w).world } :
        Session K V T).lodging? m = if m = n then none else h.session.lodging? m :=
    Session.lodging?_of_closes rfl m
  have htiers (tier : Nat) : (c.close w).world.area.tiers.get? tier =
      if c.tier? = some tier then none else h.session.world.area.tiers.get? tier :=
    hw ▸ c.store.backend.tiers_close w tier
  have hnextTier : (c.close w).world.area.nextTier = h.session.world.area.nextTier :=
    hw ▸ (c.store.backend.uses_close w).only.nextTier
  have hown := Session.lodging?_of_get? hget
  constructor
  · exact hnextTier ▸ hh.later
  · intro m hm
    rw [Table.contains_insert_of_contains (Table.contains_of_get? hget)] at hm
    obtain ⟨o, ho, hlodged⟩ := hh.known m hm
    refine ⟨o, ho, ?_⟩
    rw [hlodging]
    split
    · rename_i hmn
      exact ⟨nofun, fun hopen => absurd ((hclosed m).2 (.inr hmn)) hopen.2⟩
    · rename_i hmn
      refine hlodged.trans (and_congr_right fun _ => not_congr ?_)
      exact ((hclosed m).trans (or_iff_left hmn)).symm
  · intro m tier hm
    rw [hlodging] at hm
    split at hm
    · cases hm
    · rename_i hmn
      -- two caches never share a directory, so the one that closes takes no other's away
      obtain ⟨hle, o, ho, hplaced⟩ := hh.placed m tier hm
      have hother : c.tier? ≠ some tier := fun htier =>
        hmn (htied.lodging?_inj hm (hown.trans htier))
      refine ⟨hle, o, ho, (congrArg (Option.map _) ?_).trans hplaced⟩
      exact (htiers tier).trans (if_neg hother)
  · intro tier hfree
    show (c.close w).world.area.tiers.get? tier = _ ∨ _ ∧ (c.close w).world.area.tiers.get? tier = _
    rw [htiers]
    split
    · rename_i htier
      exact .inr ⟨(hh.placed n tier (hown.trans htier)).1, rfl⟩
    · rename_i hother
      refine hh.rest tier fun m hm => hfree m ?_
      have hmn : m ≠ n := by
        rintro rfl
        exact hother (hown.symm.trans hm)
      rw [hlodging, if_neg hmn]
      exact hm
  · intro m hm
    rcases (hclosed m).1 hm with hbefore | rfl
    · exact hh.past m hbefore
    · exact htied.fresh m (Table.contains_of_get? hget)

theorem move [DecidableEq K] (htied : h.session.Tied) (hh : h.Housed before) (hmove : Move h h') :
    h'.Housed before := by
  cases hmove with
  | refers hnames hhandles => exact ⟨hh.later, hh.known, hh.placed, hh.rest, hh.past⟩
  | drops hdrops => exact hh.drops htied hdrops
  | plans => exact hh.plans htied _
  | passes hw => exact hh.passes hw
  | builds ho hfounded hhoused => exact hh.builds htied ho hfounded hhoused
  | enrols hr ho hfounded hhoused =>
    have hbuilt := hh.builds htied ho hfounded hhoused
    exact ⟨hbuilt.later, hbuilt.known, hbuilt.placed, hbuilt.rest, hbuilt.past⟩
  | works hopen hget hw => exact hh.works hopen hget hw
  | shuts hget hw =>
    refine hh.closes htied h.session.registry hget hw fun m => ?_
    simp only [closed, List.mem_append, List.mem_singleton]
    exact or_right_comm
  | strikes hr hbound hget =>
    refine hh.closes (w := h.session.whileClosing _) htied _ hget rfl fun m => ?_
    simp only [closed, List.mem_append, List.mem_singleton]
    exact or_assoc.symm

end Housed

/-! ## Caches later -/

/-- What caches were built from stays on record, and each goes on using the directory that it uses, until
it uses none. -/
structure Stays (h h' : History K V T) : Prop where
  nextNumber : h.session.nextNumber ≤ h'.session.nextNumber
  origins : ∀ n < h.session.nextNumber, h'.origins n = h.origins n
  lodging : ∀ n < h.session.nextNumber,
    h'.session.lodging? n = h.session.lodging? n ∨ h'.session.lodging? n = none

section Staying

variable {h h' h'' : History K V T}

theorem Stays.refl (h : History K V T) : h.Stays h :=
  ⟨Nat.le_refl _, fun _ _ => rfl, fun _ _ => .inl rfl⟩

theorem Stays.trans (hs : h.Stays h') (hs' : h'.Stays h'') : h.Stays h'' where
  nextNumber := Nat.le_trans hs.nextNumber hs'.nextNumber
  origins n hn := (hs'.origins n (Nat.lt_of_lt_of_le hn hs.nextNumber)).trans (hs.origins n hn)
  lodging n hn := by
    rcases hs'.lodging n (Nat.lt_of_lt_of_le hn hs.nextNumber) with hsame | hnone
    · rw [hsame]
      exact hs.lodging n hn
    · exact .inr hnone

variable [DecidableEq K] [DecidableEq T]

theorem Move.stays (hmove : Move h h') : h.Stays h' := by
  have hbuilds {s : Session K V T} {c : Cache K V}
      (halive : s.alive = h.session.alive.insert h.session.nextNumber c) (n : Nat)
      (hn : n < h.session.nextNumber) : s.lodging? n = h.session.lodging? n :=
    (Session.lodging?_of_insert halive n).trans (if_neg (Nat.ne_of_lt hn))
  have hcloses {s : Session K V T} {c : Cache K V} {w : World} {m : Nat}
      (halive : s.alive = h.session.alive.insert m (c.close w).state) (n : Nat) :
      s.lodging? n = h.session.lodging? n ∨ s.lodging? n = none := by
    rw [Session.lodging?_of_closes halive]
    split
    · exact .inr rfl
    · exact .inl rfl
  cases hmove with
  | refers hnames hhandles => exact ⟨Nat.le_refl _, fun _ _ => rfl, fun _ _ => .inl rfl⟩
  | drops hdrops =>
    exact ⟨Nat.le_of_eq hdrops.nextNumber.symm, fun _ _ => rfl, fun n _ => hdrops.lodging? n⟩
  | plans =>
    refine ⟨Nat.le_refl _, fun n hn => ?_, fun _ _ => .inl rfl⟩
    exact Function.update_of_ne (Nat.ne_of_lt hn) ..
  | passes hw => exact ⟨Nat.le_refl _, fun _ _ => rfl, fun _ _ => .inl rfl⟩
  | builds ho hfounded hhoused =>
    exact ⟨Nat.le_succ _, fun _ _ => rfl, fun n hn => .inl (hbuilds rfl n hn)⟩
  | enrols hr ho hfounded hhoused =>
    exact ⟨Nat.le_succ _, fun _ _ => rfl, fun n hn => .inl (hbuilds rfl n hn)⟩
  | works hopen hget hw =>
    exact ⟨Nat.le_refl _, fun _ _ => rfl,
      fun n _ => .inl (Session.lodging?_of_works hopen hget rfl n)⟩
  | shuts hget hw => exact ⟨Nat.le_refl _, fun _ _ => rfl, fun n _ => hcloses rfl n⟩
  | strikes hr hbound hget => exact ⟨Nat.le_refl _, fun _ _ => rfl, fun n _ => hcloses rfl n⟩

theorem Moves.stays (hmoves : Moves h h') : h.Stays h' := by
  induction hmoves with
  | refl => exact .refl h
  | tail _ hlast ih => exact ih.trans hlast.stays

end Staying

/-! ## Runs -/

variable [DecidableEq T] {h : History K V T} {before : FileArea}

/-- The private directories are those of `before`, as they were, and one for each cache that is referred
to, swaps to disk and was not closed. -/
structure Accounted (before : FileArea) (h : History K V T) : Prop where
  lodged : ∀ n, h.session.refersTo n = true → ∃ o, h.origins n = some o ∧
    ((h.session.lodging? n).isSome = true ↔ o.Swaps ∧ n ∉ h.closed)
  /-- A cache that nothing refers to has none. -/
  referred : ∀ n tier, h.session.lodging? n = some tier → h.session.refersTo n = true
  apart : ∀ n n' tier, h.session.lodging? n = some tier → h.session.lodging? n' = some tier → n = n'
  /-- The directory of a cache lies where the origin of the cache says. -/
  placed : ∀ n tier, h.session.lodging? n = some tier → ∃ o d, h.origins n = some o ∧
    h.session.world.area.tiers.get? tier = some d ∧ d.parent = o.parent
  kept : ∀ tier, before.hasTier tier = true →
    h.session.world.area.tiers.get? tier = before.tiers.get? tier ∧
      ∀ n, h.session.lodging? n ≠ some tier
  complete : ∀ tier, h.session.world.area.hasTier tier = true →
    before.hasTier tier = true ∨ ∃ n, h.session.lodging? n = some tier

omit [DecidableEq T] in
theorem housed_start (r : Registry T) (w : World) :
    Housed w.area (start r w : History K V T) where
  later := Nat.le_refl _
  known _ hn := nomatch hn
  placed _ _ hn := nomatch hn
  rest _ _ := .inl rfl
  past _ hn := nomatch hn

variable [DecidableEq K]

theorem housed_run (storage : T → Storage K V) (config : Option RegistryConfig) (w : World)
    (deeds : List (Deed K V T)) :
    let h := (start (Registry.opened config) w).run storage deeds
    h.session.Sound ∧ h.Housed w.area :=
  holds_run storage config w deeds (housed_start _ w) Housed.move

end History

end CacheLayer
