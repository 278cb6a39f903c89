import CacheLayer.Proofs.SideBySide
import CacheLayer.Registry

/-!
# What ties a session together

The registry, the handles and the caches that are alive name each other by numbers. Names and handles
refer to caches that are alive, no two names to the same one; no two caches use one private directory;
and between calls every cache that is alive is referred to.

* `Session.Tied`, `Session.Sound` : these facts, without and with the last one.
* `Session.Drops` : what letting go of caches does, whichever they are; `Session.drops_collect`.
* `Tied.names`, `Tied.world`, `Tied.adopt`, `Tied.register`, `Tied.on` : the steps that calls are made of
  keep a session tied; `Tied.sound_collect` makes it sound again, and `Sound.collect_eq` leaves a sound
  one as it is.
* `Session.Untouched` : what a call does to the caches that it is not about, with one lemma for each of
  these steps.
-/

namespace CacheLayer

variable {K : Type u} {V : Type v} {T : Type w}

def Cache.tier? (c : Cache K V) : Option Nat := c.store.backend.number?

namespace Session

/-- How a name is registered. -/
def binding? (s : Session K V T) (name : String) : Option (Registration T) :=
  s.registry.bind fun r => r.caches.get? name

theorem binding?_of_registry {s : Session K V T} {r : Registry T} (h : s.registry = some r)
    (name : String) : s.binding? name = r.caches.get? name := by
  rw [binding?, h, Option.bind_some]

variable [DecidableEq T] {s s' s'' : Session K V T}

theorem refersTo_iff (s : Session K V T) (n : Nat) : s.refersTo n = true ↔
    (∃ name entry, s.binding? name = some entry ∧ entry.number = n) ∨
      ∃ slot, s.handles.get? slot = some n := by
  unfold refersTo binding?
  rw [Bool.or_eq_true, List.contains_iff_mem, Table.mem_values]
  refine or_congr ?_ Iff.rfl
  cases s.registry with
  | none => simp
  | some r =>
    simp only [List.any_eq_true, Table.mem_values, decide_eq_true_eq, Option.bind_some]
    constructor
    · rintro ⟨entry, ⟨name, hget⟩, hn⟩
      exact ⟨name, entry, hget, hn⟩
    · rintro ⟨name, entry, hget, hn⟩
      exact ⟨entry, ⟨name, hget⟩, hn⟩

theorem refersTo_congr (hnames : ∀ name, s'.binding? name = s.binding? name)
    (hhandles : s'.handles = s.handles) (n : Nat) : s'.refersTo n = s.refersTo n := by
  rw [Bool.eq_iff_iff, refersTo_iff, refersTo_iff, hhandles]
  simp only [hnames]

/-- Names and handles refer to caches that are alive, and no two names to the same one. Numbers are not
given out twice, nor are private directories. -/
structure Tied (s : Session K V T) : Prop where
  known : ∀ name entry, s.binding? name = some entry → s.alive.contains entry.number = true
  apart : ∀ name name' entry entry', s.binding? name = some entry →
    s.binding? name' = some entry' → entry.number = entry'.number → name = name'
  handled : ∀ slot n, s.handles.get? slot = some n → s.alive.contains n = true
  fresh : ∀ n, s.alive.contains n = true → n < s.nextNumber
  located : ∀ n c tier, s.alive.get? n = some c → c.tier? = some tier →
    tier < s.world.area.nextTier
  ownTier : ∀ n n' c c' tier, s.alive.get? n = some c → s.alive.get? n' = some c' →
    c.tier? = some tier → c'.tier? = some tier → n = n'

/-- Moreover every cache that is alive is referred to. -/
structure Sound (s : Session K V T) : Prop extends Tied s where
  referred : ∀ n, s.alive.contains n = true → s.refersTo n = true

/-! ## Letting go of caches -/

/-- Caches were let go of that nothing refers to, and their directories with them. -/
structure Drops (s s' : Session K V T) : Prop where
  registry : s'.registry = s.registry
  handles : s'.handles = s.handles
  nextNumber : s'.nextNumber = s.nextNumber
  within : ∀ n c, s'.alive.get? n = some c → s.alive.get? n = some c
  kept : ∀ n, s.refersTo n = true → s'.alive.get? n = s.alive.get? n
  nextTier : s'.world.area.nextTier = s.world.area.nextTier
  tiers : ∀ tier, (∀ n c, s.alive.get? n = some c → s'.alive.get? n = none → c.tier? ≠ some tier) →
    s'.world.area.tiers.get? tier = s.world.area.tiers.get? tier
  vanished : ∀ tier, s.world.area.tiers.get? tier = none → s'.world.area.tiers.get? tier = none
  deleted : ∀ n c tier, s.alive.get? n = some c → s'.alive.get? n = none → c.tier? = some tier →
    s'.world.area.tiers.get? tier = none

namespace Drops

omit [DecidableEq T] in
theorem refl (s : Session K V T) : Drops s s :=
  ⟨rfl, rfl, rfl, fun _ _ h => h, fun _ _ => rfl, rfl, fun _ _ => rfl, fun _ h => h,
    fun _ _ _ hget hgone => nomatch hgone.symm.trans hget⟩

omit [DecidableEq T] in
theorem binding? (h : Drops s s') (name : String) : s'.binding? name = s.binding? name := by
  unfold Session.binding?
  rw [h.registry]

theorem trans (h : Drops s s') (h' : Drops s' s'') : Drops s s'' where
  registry := h'.registry.trans h.registry
  handles := h'.handles.trans h.handles
  nextNumber := h'.nextNumber.trans h.nextNumber
  within n c hget := h.within n c (h'.within n c hget)
  kept n hn :=
    (h'.kept n ((refersTo_congr h.binding? h.handles n).trans hn)).trans (h.kept n hn)
  nextTier := h'.nextTier.trans h.nextTier
  tiers tier hfree := by
    refine (h'.tiers tier fun n c hget hgone => hfree n c (h.within n c hget) hgone).trans ?_
    refine h.tiers tier fun n c hget hgone => hfree n c hget ?_
    exact Option.eq_none_iff_forall_ne_some.2 fun c' hget' =>
      nomatch hgone.symm.trans (h'.within n c' hget')
  vanished tier hgone := h'.vanished tier (h.vanished tier hgone)
  deleted n c tier hget hgone htier := by
    cases hmid : s'.alive.get? n with
    | none => exact h'.vanished tier (h.deleted n c tier hget hmid htier)
    | some c' =>
      obtain rfl := Option.some.inj ((h.within n c' hmid).symm.trans hget)
      exact h'.deleted n c' tier hmid hgone htier

theorem tiers_of_kept (h : Drops s s') (htied : s.Tied) {n tier : Nat} {c : Cache K V}
    (hget : s'.alive.get? n = some c) (htier : c.tier? = some tier) :
    s'.world.area.tiers.get? tier = s.world.area.tiers.get? tier := by
  refine h.tiers tier fun n' c' hget' hgone htier' => ?_
  obtain rfl := htied.ownTier _ _ _ _ _ (h.within n c hget) hget' htier htier'
  cases hgone.symm.trans hget

end Drops

theorem Tied.drops (h : s.Tied) (hd : Drops s s') : s'.Tied where
  known name entry hbound := by
    rw [hd.binding? name] at hbound
    rw [Table.contains_eq, hd.kept _ ((s.refersTo_iff _).2 (.inl ⟨name, entry, hbound, rfl⟩))]
    exact h.known name entry hbound
  apart name name' entry entry' hbound hbound' := by
    rw [hd.binding?] at hbound hbound'
    exact h.apart name name' entry entry' hbound hbound'
  handled slot n hslot := by
    rw [hd.handles] at hslot
    rw [Table.contains_eq, hd.kept _ ((s.refersTo_iff _).2 (.inr ⟨slot, hslot⟩))]
    exact h.handled slot n hslot
  fresh n hn := by
    obtain ⟨c, hget⟩ := Table.get?_of_contains hn
    rw [hd.nextNumber]
    exact h.fresh n (Table.contains_of_get? (hd.within n c hget))
  located n c tier hget htier := by
    rw [hd.nextTier]
    exact h.located n c tier (hd.within n c hget) htier
  ownTier n n' c c' tier hget hget' :=
    h.ownTier n n' c c' tier (hd.within n c hget) (hd.within n' c' hget')

omit [DecidableEq T] in
/-- A cache that nobody refers to is closed, and its directory goes with it. -/
theorem drops_unreferred {n : Nat} {c : Cache K V} (hget : s.alive.get? n = some c)
    (hfree : ¬ s.refersTo n = true) :
    Drops s { s with
      alive := s.alive.erase n
      world := { s.world with area := (c.close s.world).world.area } } := by
  obtain ⟨-, hnextTier, htiers⟩ := c.store.backend.uses_close s.world
  have hclosed := c.store.backend.tiers_close s.world
  refine ⟨rfl, rfl, rfl, fun m c' hm => ?_, fun m hm => ?_, hnextTier, fun tier hall => ?_,
    fun tier hgone => (hclosed tier).trans (by simp [hgone]),
    fun m c' tier hm hgone htier => ?_⟩
  · rw [Table.get?_erase] at hm
    split at hm
    · cases hm
    · exact hm
  · have hne : m ≠ n := fun hmn => hfree (hmn ▸ hm)
    rw [Table.get?_erase, if_neg hne]
  · refine htiers tier (hall n c hget ?_)
    rw [Table.get?_erase, if_pos rfl]
  · obtain rfl : m = n := by
      by_contra hne
      rw [Table.get?_erase, if_neg hne, hm] at hgone
      cases hgone
    obtain rfl := Option.some.inj (hget.symm.trans hm)
    exact (hclosed tier).trans (if_pos htier)

theorem drops_release (ns : List Nat) (s : Session K V T) : Drops s (s.release ns) ∧
    ∀ n ∈ ns, s.refersTo n = false → (s.release ns).alive.get? n = none := by
  induction ns generalizing s with
  | nil => exact ⟨.refl s, nofun⟩
  | cons n ns ih =>
    rw [release]
    split
    · rename_i hgone
      obtain ⟨hd, hrest⟩ := ih s
      refine ⟨hd, List.forall_mem_cons.2 ⟨fun _ => ?_, hrest⟩⟩
      exact Option.eq_none_iff_forall_ne_some.2 fun c hget =>
        nomatch hgone.symm.trans (hd.within n c hget)
    · rename_i c hget
      split
      · rename_i hrefers
        obtain ⟨hd, hrest⟩ := ih s
        exact ⟨hd, List.forall_mem_cons.2 ⟨fun hn => (nomatch hn.symm.trans hrefers), hrest⟩⟩
      · rename_i hfree
        obtain ⟨hd, hrest⟩ := ih { s with
          alive := s.alive.erase n
          world := { s.world with area := (c.close s.world).world.area } }
        refine ⟨(drops_unreferred hget hfree).trans hd, List.forall_mem_cons.2 ⟨fun _ => ?_, hrest⟩⟩
        refine Option.eq_none_iff_forall_ne_some.2 fun c' hm => ?_
        have hstill := hd.within n c' hm
        rw [Table.get?_erase, if_pos rfl] at hstill
        cases hstill

theorem drops_collect (s : Session K V T) : Drops s s.collect := (drops_release _ s).1

theorem Tied.sound_collect (h : s.Tied) : s.collect.Sound where
  toTied := h.drops s.drops_collect
  referred n hn := by
    obtain ⟨hd, hfree⟩ := drops_release s.alive.keys s
    obtain ⟨c, hget⟩ := Table.get?_of_contains hn
    rw [refersTo_congr s.drops_collect.binding? s.drops_collect.handles]
    by_contra hrefers
    have hlisted : n ∈ s.alive.keys :=
      (s.alive.mem_keys n).2 (Table.contains_of_get? (hd.within n c hget))
    cases (hfree n hlisted (Bool.eq_false_iff.2 hrefers)).symm.trans hget

/-- Where everything is referred to, nothing is let go of. -/
theorem Sound.collect_eq (h : s.Sound) : s.collect = s := by
  have hrelease (ns : List Nat) : s.release ns = s := by
    induction ns with
    | nil => rfl
    | cons n ns ih =>
      rw [release]
      split
      · exact ih
      · rename_i c hget
        rw [if_pos (h.referred n (Table.contains_of_get? hget))]
        exact ih
  exact hrelease s.alive.keys

/-! ## The steps that calls are made of -/

/-- Names and handles may change as long as they refer to what they referred to before. -/
theorem Tied.names (h : s.Tied) {registry : Option (Registry T)} {handles : Table (T × String) Nat}
    (hnames : ∀ name entry, (registry.bind fun r => r.caches.get? name) = some entry →
      s.binding? name = some entry)
    (hhandles : ∀ slot n, handles.get? slot = some n → s.alive.contains n = true) :
    ({ s with registry, handles } : Session K V T).Tied where
  known name entry hbound := h.known name entry (hnames name entry hbound)
  apart name name' entry entry' hbound hbound' :=
    h.apart name name' entry entry' (hnames _ _ hbound) (hnames _ _ hbound')
  handled := hhandles
  fresh := h.fresh
  located := h.located
  ownTier := h.ownTier

theorem Tied.world (h : s.Tied) {w : World} (hw : s.world.area.Grows w.area) :
    ({ s with world := w } : Session K V T).Tied where
  known := h.known
  apart := h.apart
  handled := h.handled
  fresh := h.fresh
  located n c tier hget htier := Nat.lt_of_lt_of_le (h.located n c tier hget htier) hw.nextTier
  ownTier := h.ownTier

variable [DecidableEq K]

omit [DecidableEq K] [DecidableEq T] in
theorem contains_adopt (s : Session K V T) (c : Cache K V) :
    (s.adopt c).2.alive.contains s.nextNumber = true := by
  rw [adopt, Table.contains_insert, decide_eq_true rfl, Bool.true_or]

theorem Tied.adopt (h : s.Tied) {w : World} {c : Cache K V}
    (hc : c.store.backend.Founded s.world.area w.area) :
    (({ s with world := w } : Session K V T).adopt c).2.Tied where
  known name entry hbound := by
    rw [Session.adopt, Table.contains_insert, h.known name entry hbound, Bool.or_true]
  apart := h.apart
  handled slot n hslot := by
    rw [Session.adopt, Table.contains_insert, h.handled slot n hslot, Bool.or_true]
  fresh n hn := by
    rw [Session.adopt, Table.contains_insert, Bool.or_eq_true, decide_eq_true_eq] at hn
    rcases hn with rfl | hn
    · exact Nat.lt_succ_self _
    · exact Nat.lt_succ_of_lt (h.fresh n hn)
  located n c' tier hget htier := by
    rw [Session.adopt, Table.get?_insert] at hget
    split at hget
    · obtain rfl := Option.some.inj hget
      exact (hc.own tier htier).2
    · exact Nat.lt_of_lt_of_le (h.located n c' tier hget htier) hc.grows.nextTier
  ownTier n n' c₁ c₂ tier hget hget' htier htier' := by
    -- the directory of the new cache was not there before
    have hnew (m : Nat) (c₀ : Cache K V) (hm : s.alive.get? m = some c₀)
        (hm' : c₀.tier? = some tier) (hown : c.tier? = some tier) : False :=
      absurd (h.located m c₀ tier hm hm') (Nat.not_lt_of_le (hc.own tier hown).1)
    rw [Session.adopt, Table.get?_insert] at hget hget'
    split at hget <;> split at hget'
    · rename_i hn hn'
      exact hn.trans hn'.symm
    · obtain rfl := Option.some.inj hget
      exact (hnew n' c₂ hget' htier' htier).elim
    · obtain rfl := Option.some.inj hget'
      exact (hnew n c₁ hget htier htier').elim
    · exact h.ownTier n n' c₁ c₂ tier hget hget' htier htier'

omit [DecidableEq K] in
theorem Tied.register (h : s.Tied) {r : Registry T} (hr : s.registry = some r) {name : String}
    {entry : Registration T} (halive : s.alive.contains entry.number = true)
    (hunnamed : ∀ name' entry', s.binding? name' = some entry' → entry'.number ≠ entry.number) :
    ({ s with registry := some { r with caches := r.caches.insert name entry } } :
      Session K V T).Tied := by
  have hbound (name' : String) (entry' : Registration T)
      (hget : (r.caches.insert name entry).get? name' = some entry') :
      name' = name ∧ entry' = entry ∨ s.binding? name' = some entry' := by
    rw [Table.get?_insert] at hget
    split at hget
    · rename_i hname
      exact .inl ⟨hname, (Option.some.inj hget).symm⟩
    · exact .inr ((binding?_of_registry hr name').trans hget)
  refine ⟨fun name' entry' hget => ?_, fun name₁ name₂ entry₁ entry₂ hget₁ hget₂ hsame => ?_,
    h.handled, h.fresh, h.located, h.ownTier⟩
  · rcases hbound name' entry' hget with ⟨rfl, rfl⟩ | hbefore
    · exact halive
    · exact h.known name' entry' hbefore
  · rcases hbound name₁ entry₁ hget₁ with ⟨rfl, rfl⟩ | hbefore₁ <;>
      rcases hbound name₂ entry₂ hget₂ with ⟨rfl, rfl⟩ | hbefore₂
    · rfl
    · exact absurd hsame.symm (hunnamed _ _ hbefore₂)
    · exact absurd hsame (hunnamed _ _ hbefore₁)
    · exact h.apart _ _ _ _ hbefore₁ hbefore₂ hsame

omit [DecidableEq K] in
theorem Tied.on (h : s.Tied) {n : Nat} {c c' : Cache K V} {w w' : World}
    (hget : s.alive.get? n = some c) (hw : w.area = s.world.area) (hown : c.Uses w c' w') :
    ({ s with alive := s.alive.insert n c', world := w' } : Session K V T).Tied := by
  obtain ⟨htier', hnextTier, -⟩ := hown
  rw [hw] at hnextTier
  have hsame (m : Nat) : (s.alive.insert n c').contains m = s.alive.contains m :=
    Table.contains_insert_of_contains (Table.contains_of_get? hget) m c'
  have hbefore (m : Nat) (c₀ : Cache K V) (tier : Nat)
      (hm : (s.alive.insert n c').get? m = some c₀) (htier : c₀.tier? = some tier) :
      ∃ c₁, s.alive.get? m = some c₁ ∧ c₁.tier? = some tier := by
    rw [Table.get?_insert] at hm
    split at hm
    · rename_i hmn
      obtain rfl := Option.some.inj hm
      refine ⟨c, hmn ▸ hget, ?_⟩
      rcases htier' with hstays | hnone
      · exact hstays.symm.trans htier
      · cases hnone.symm.trans htier
    · exact ⟨c₀, hm, htier⟩
  refine ⟨fun name entry hbound => (hsame _).trans (h.known name entry hbound), h.apart,
    fun slot m hslot => (hsame _).trans (h.handled slot m hslot),
    fun m hm => h.fresh m ((hsame m).symm.trans hm), fun m c₀ tier hm htier => ?_,
    fun m m' c₀ c₀' tier hm hm' htier htier' => ?_⟩
  · obtain ⟨c₁, hm₁, htier₁⟩ := hbefore m c₀ tier hm htier
    exact hnextTier.symm ▸ h.located m c₁ tier hm₁ htier₁
  · obtain ⟨c₁, hm₁, htier₁⟩ := hbefore m c₀ tier hm htier
    obtain ⟨c₂, hm₂, htier₂⟩ := hbefore m' c₀' tier hm' htier'
    exact h.ownTier m m' c₁ c₂ tier hm₁ hm₂ htier₁ htier₂

/-! ## Caches that a call is not about -/

/-- The cache of a number is the same and its files are, and so it shows the same, whenever it is asked
and whoever holds its values. -/
structure Untouched (s s' : Session K V T) (n : Nat) : Prop where
  same : s'.alive.get? n = s.alive.get? n
  files : ∀ c tier, s.alive.get? n = some c → c.tier? = some tier →
    s'.world.area.tiers.get? tier = s.world.area.tiers.get? tier
  shows : ∀ c, s.alive.get? n = some c → ∀ (w : World) (k : K),
    c.store.backend.shows { w with area := s'.world.area } k =
      c.store.backend.shows { w with area := s.world.area } k

namespace Untouched

variable {n : Nat}

omit [DecidableEq T] in
theorem of_files (hsame : s'.alive.get? n = s.alive.get? n)
    (hfiles : ∀ c tier, s.alive.get? n = some c → c.tier? = some tier →
      s'.world.area.tiers.get? tier = s.world.area.tiers.get? tier) : Untouched s s' n := by
  refine ⟨hsame, hfiles, fun c hget w k => ?_⟩
  have haround : World.Around { w with area := s.world.area } { w with area := s'.world.area } :=
    ⟨rfl, rfl, Nat.le_refl _⟩
  exact Backend.shows_congr haround (fun tier htier => hfiles c tier hget htier) k

omit [DecidableEq T] in
theorem trans (h : Untouched s s' n) (h' : Untouched s' s'' n) : Untouched s s'' n :=
  .of_files (h'.same.trans h.same) fun c tier hget htier =>
    (h'.files c tier (h.same.trans hget) htier).trans (h.files c tier hget htier)

theorem world (h : s.Tied) {w : World} (hw : s.world.area.Grows w.area) (n : Nat) :
    Untouched s { s with world := w } n :=
  .of_files rfl fun c tier hget htier => hw.tiers tier (h.located n c tier hget htier)

theorem drops (h : s.Tied) (hd : Drops s s') (hkept : s.refersTo n = true) : Untouched s s' n :=
  .of_files (hd.kept n hkept) fun _ _ hget htier =>
    hd.tiers_of_kept h ((hd.kept n hkept).trans hget) htier

theorem on (h : s.Tied) {m : Nat} {c c' : Cache K V} {w w' : World}
    (hget : s.alive.get? m = some c) (hw : w.area = s.world.area) (hown : c.Uses w c' w')
    (hne : n ≠ m) : Untouched s { s with alive := s.alive.insert m c', world := w' } n := by
  refine .of_files (by rw [Table.get?_insert, if_neg hne]) fun c₀ tier hn htier => ?_
  have htiers := hown.only.tiers tier fun hsame => hne (h.ownTier _ _ _ _ _ hn hget htier hsame)
  exact htiers.trans (by rw [hw])

end Untouched

end Session

end CacheLayer
