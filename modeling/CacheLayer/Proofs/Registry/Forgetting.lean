import CacheLayer.Proofs.Registry.Session

/-!
# Removing names

Removing a name unbinds it, closes its cache and lets go of what nothing refers to any more. The cache
that was closed lives on as long as there are handles for it, with nothing in it.

* `Session.Forgets` : what removing names does, whichever they are; `Forgets.trans` : one after another.
* `Session.struck` : the state half way, before anything is let go of.
* `Sound.forgets_remove`, `Sound.forgets_clear` : removing one name, and all of them.
-/

namespace CacheLayer

variable {K : Type u} {V : Type v} {T : Type w}

namespace Session

variable [DecidableEq K] [DecidableEq T] {s s' s'' : Session K V T} {r : Registry T}

/-- The names in `gone` were removed and their caches closed: whoever keeps a handle for one of them
finds nothing in it, and its directory is deleted. All else is as before. -/
structure Forgets (s : Session K V T) (gone : String → Prop) (s' : Session K V T) : Prop where
  forgotten : ∀ name, gone name → s'.binding? name = none
  others : ∀ name, ¬ gone name → s'.binding? name = s.binding? name
  handles : s'.handles = s.handles
  nextNumber : s'.nextNumber = s.nextNumber
  within : ∀ n, s'.alive.contains n = true → s.alive.contains n = true
  untouched : ∀ n, s.alive.contains n = true →
    (∀ name entry, gone name → s.binding? name = some entry → entry.number ≠ n) → Untouched s s' n
  outlives : ∀ name entry, gone name → s.binding? name = some entry →
    (s'.alive.contains entry.number = true ↔ ∃ slot, s.handles.get? slot = some entry.number)
  empty : ∀ name entry c, gone name → s.binding? name = some entry →
    s'.alive.get? entry.number = some c → ∀ w k, c.store.backend.shows w k = (false, none)
  deleted : ∀ name entry c tier, gone name → s.binding? name = some entry →
    s.alive.get? entry.number = some c → c.tier? = some tier → s'.world.area.tiers.get? tier = none
  vanished : ∀ tier, s.world.area.tiers.get? tier = none → s'.world.area.tiers.get? tier = none

namespace Forgets

variable {gone gone' : String → Prop}

theorem refl (hunbound : ∀ name, gone name → s.binding? name = none) : Forgets s gone s where
  forgotten := hunbound
  others _ _ := rfl
  handles := rfl
  nextNumber := rfl
  within _ h := h
  untouched _ _ _ := .of_files rfl fun _ _ _ _ => rfl
  outlives name _ hgone hbound := nomatch (hunbound name hgone).symm.trans hbound
  empty name _ _ hgone hbound := nomatch (hunbound name hgone).symm.trans hbound
  deleted name _ _ _ hgone hbound := nomatch (hunbound name hgone).symm.trans hbound
  vanished _ h := h

/-- What is bound after the first names are gone was bound before, and to another cache than theirs. -/
theorem trans (h : Forgets s gone s') (h' : Forgets s' gone' s'') (htied : s.Tied) :
    Forgets s (fun name => gone name ∨ gone' name) s'' := by
  have hbefore {name : String} {entry : Registration T} (hbound : s'.binding? name = some entry) :
      ¬ gone name ∧ s.binding? name = some entry := by
    have hnot : ¬ gone name := fun hgone => nomatch (h.forgotten name hgone).symm.trans hbound
    exact ⟨hnot, (h.others name hnot).symm.trans hbound⟩
  -- two names never share a cache, so what the second step does concerns none of the first names
  have hapart {name name' : String} {entry entry' : Registration T} (hgone : gone name)
      (hbound : s.binding? name = some entry) (hbound' : s'.binding? name' = some entry') :
      entry'.number ≠ entry.number := by
    intro hsame
    obtain ⟨hnot, hbound'⟩ := hbefore hbound'
    exact hnot (htied.apart name name' entry entry' hbound hbound' hsame.symm ▸ hgone)
  have hlater {name : String} {entry : Registration T} (hgone : gone name ∨ gone' name)
      (hbound : s.binding? name = some entry) : gone name ∨
        gone' name ∧ s'.binding? name = some entry ∧ Untouched s s' entry.number := by
    by_cases hfirst : gone name
    · exact .inl hfirst
    · refine .inr ⟨hgone.resolve_left hfirst, (h.others name hfirst).trans hbound, ?_⟩
      refine h.untouched _ (htied.known name entry hbound) fun name' entry' hgone' hbound' hsame => ?_
      exact hfirst (htied.apart name' name entry' entry hbound' hbound hsame ▸ hgone')
  refine ⟨fun name hgone => ?_, fun name hnot => ?_, h'.handles.trans h.handles,
    h'.nextNumber.trans h.nextNumber, fun n hn => h.within n (h'.within n hn),
    fun n hn hfree => ?_, fun name entry hgone hbound => ?_, fun name entry c hgone hbound hget => ?_,
    fun name entry c tier hgone hbound hget htier => ?_,
    fun tier hnone => h'.vanished tier (h.vanished tier hnone)⟩
  · by_cases hsecond : gone' name
    · exact h'.forgotten name hsecond
    · exact (h'.others name hsecond).trans (h.forgotten name (hgone.resolve_right hsecond))
  · exact (h'.others name fun hg => hnot (.inr hg)).trans (h.others name fun hg => hnot (.inl hg))
  · have hfirst := h.untouched n hn fun name entry hgone => hfree name entry (.inl hgone)
    refine hfirst.trans (h'.untouched n ?_ fun name entry hgone hbound => ?_)
    · rw [Table.contains_eq, hfirst.same]
      exact hn
    · exact hfree name entry (.inr hgone) (hbefore hbound).2
  · rcases hlater hgone hbound with hfirst | ⟨hsecond, hbound', -⟩
    · rw [← h.outlives name entry hfirst hbound]
      refine ⟨h'.within _, fun hn => ?_⟩
      have hlast := h'.untouched _ hn fun _ _ _ hbound' => hapart hfirst hbound hbound'
      rw [Table.contains_eq, hlast.same]
      exact hn
    · rw [h'.outlives name entry hsecond hbound', h.handles]
  · rcases hlater hgone hbound with hfirst | ⟨hsecond, hbound', -⟩
    · have hn := h'.within _ (Table.contains_of_get? hget)
      have hlast := h'.untouched _ hn fun _ _ _ hbound' => hapart hfirst hbound hbound'
      exact h.empty name entry c hfirst hbound (hlast.same.symm.trans hget)
    · exact h'.empty name entry c hsecond hbound' hget
  · rcases hlater hgone hbound with hfirst | ⟨hsecond, hbound', hsame⟩
    · exact h'.vanished tier (h.deleted name entry c tier hfirst hbound hget htier)
    · exact h'.deleted name entry c tier hsecond hbound' (hsame.same.trans hget) htier

theorem mono (h : Forgets s gone s') (hmore : ∀ name, gone name → gone' name)
    (hunbound : ∀ name, gone' name → ¬ gone name → s.binding? name = none) : Forgets s gone' s' := by
  have hgone {name : String} {entry : Registration T} (hg : gone' name)
      (hbound : s.binding? name = some entry) : gone name :=
    Classical.byContradiction fun hnot => nomatch (hunbound name hg hnot).symm.trans hbound
  refine ⟨fun name hg => ?_, fun name hnot => h.others name fun hg => hnot (hmore name hg), h.handles,
    h.nextNumber, h.within, fun n hn hfree => ?_,
    fun name entry hg hbound => h.outlives name entry (hgone hg hbound) hbound,
    fun name entry c hg hbound => h.empty name entry c (hgone hg hbound) hbound,
    fun name entry c tier hg hbound => h.deleted name entry c tier (hgone hg hbound) hbound,
    h.vanished⟩
  · by_cases hfirst : gone name
    · exact h.forgotten name hfirst
    · exact (h.others name hfirst).trans (hunbound name hg hfirst)
  · exact h.untouched n hn fun name entry hg => hfree name entry (hmore name hg)

end Forgets

omit [DecidableEq K] [DecidableEq T] in
theorem remove_of_absent {name : String} (h : r.caches.get? name = none) :
    s.remove r name = (false, s) := by
  rw [remove, h]

omit [DecidableEq K] [DecidableEq T] in
def whileClosing (s : Session K V T) (n : Nat) : World :=
  { s.world with held := [] ++ s.heldElsewhere n }

omit [DecidableEq K] [DecidableEq T] in
/-- The session in which a name is gone and its cache is closed, before anything is let go of. -/
def struck (s : Session K V T) (r : Registry T) (name : String) (n : Nat) (c : Cache K V) :
    Session K V T :=
  { s with
    registry := some { r with caches := r.caches.erase name }
    alive := s.alive.insert n (c.close (s.whileClosing n)).state
    world := (c.close (s.whileClosing n)).world }

section Struck

variable {name : String} {entry : Registration T} {c : Cache K V}

omit [DecidableEq K] [DecidableEq T] in
theorem remove_of_bound (hbound : r.caches.get? name = some entry)
    (hget : s.alive.get? entry.number = some c) :
    s.remove r name = (true, (s.struck r name entry.number c).collect) := by
  unfold remove Session.on
  rw [hbound]
  dsimp only
  rw [hget]
  rfl

omit [DecidableEq K] [DecidableEq T] in
theorem binding?_struck (hr : s.registry = some r) (name' : String) (n : Nat) :
    (s.struck r name n c).binding? name' = if name' = name then none else s.binding? name' := by
  rw [binding?_of_registry hr]
  exact Table.get?_erase ..

variable (h : s.Tied) (hr : s.registry = some r) {n : Nat} (hget : s.alive.get? n = some c)

include h hr in
omit [DecidableEq K] in
theorem Tied.unnamed (name : String) :
    ({ s with registry := some { r with caches := r.caches.erase name } } : Session K V T).Tied := by
  refine h.names (fun name' entry' hget' => ?_) h.handled
  rw [Option.bind_some, Table.get?_erase] at hget'
  split at hget'
  · cases hget'
  · exact (binding?_of_registry hr name').trans hget'

include h hr hget

omit [DecidableEq K] in
theorem Tied.struck (name : String) : (s.struck r name n c).Tied :=
  (h.unnamed hr name).on hget rfl (c.store.backend.uses_close (s.whileClosing n))

theorem Untouched.struck (name : String) {m : Nat} (hne : m ≠ n) :
    Untouched s (s.struck r name n c) m := by
  have hrenamed : Untouched s { s with registry := some { r with caches := r.caches.erase name } } m :=
    .of_files rfl fun _ _ _ _ => rfl
  exact hrenamed.trans
    (.on (h.unnamed hr name) hget rfl (c.store.backend.uses_close (s.whileClosing n)) hne)

end Struck

/-- Removing a name that is bound closes its cache, which goes if there is no handle for it. -/
theorem Sound.forgets_remove (h : s.Sound) (hr : s.registry = some r) {name : String}
    {entry : Registration T} (hbound : r.caches.get? name = some entry) :
    (s.remove r name).1 = true ∧ (s.remove r name).2.Sound ∧
      Forgets s (· = name) (s.remove r name).2 := by
  have hbinding := (binding?_of_registry hr name).trans hbound
  obtain ⟨c, hget⟩ := Table.get?_of_contains (h.known name entry hbinding)
  have htied := h.struck hr hget name
  have hsound := htied.sound_collect
  have hdrops := (s.struck r name entry.number c).drops_collect
  have htiers := c.store.backend.tiers_close (s.whileClosing entry.number)
  have hnames (name' : String) : (s.struck r name entry.number c).collect.binding? name' =
      if name' = name then none else s.binding? name' :=
    (hdrops.binding? name').trans (binding?_struck hr name' _)
  have hsame {name' : String} {entry' : Registration T} (hname : name' = name)
      (hbound' : s.binding? name' = some entry') : entry' = entry :=
    Option.some.inj (hbound'.symm.trans (hname ▸ hbinding))
  rw [remove_of_bound hbound hget]
  refine ⟨rfl, hsound, fun name' hname => (hnames name').trans (if_pos hname),
    fun name' hname => (hnames name').trans (if_neg hname), hdrops.handles, hdrops.nextNumber,
    fun n hn => ?_, fun n hn hfree => ?_, fun name' entry' hname hbound' => ?_,
    fun name' entry' c' hname hbound' hget' => ?_,
    fun name' entry' c' tier hname hbound' hget' htier => ?_, fun tier hnone => ?_⟩
  · obtain ⟨c', hget'⟩ := Table.get?_of_contains hn
    have hbefore := Table.contains_of_get? (hdrops.within n c' hget')
    rwa [struck, Table.contains_insert_of_contains (Table.contains_of_get? hget)] at hbefore
  · -- whatever referred to another cache still does
    have hne : n ≠ entry.number := (hfree name entry rfl hbinding).symm
    refine (Untouched.struck h.toTied hr hget name hne).trans (.drops htied hdrops ?_)
    rw [refersTo_iff]
    refine ((s.refersTo_iff n).1 (h.referred n hn)).imp_left ?_
    rintro ⟨name', entry', hbound', rfl⟩
    have hother : name' ≠ name := fun hname => hne (hsame hname hbound' ▸ rfl)
    exact ⟨name', entry', (binding?_struck hr name' _).trans ((if_neg hother).trans hbound'), rfl⟩
  · obtain rfl := hsame hname hbound'
    constructor
    · intro hn
      rcases (refersTo_iff _ _).1 (hsound.referred _ hn) with
        ⟨name'', entry'', hbound'', hnumber⟩ | ⟨slot, hslot⟩
      · -- no name but the removed one was bound to the cache
        rw [hnames] at hbound''
        split at hbound''
        · cases hbound''
        · rename_i hother
          exact absurd (h.apart _ _ _ _ hbound'' hbinding hnumber) hother
      · exact ⟨slot, hdrops.handles ▸ hslot⟩
    · rintro ⟨slot, hslot⟩
      rw [Table.contains_eq, hdrops.kept _ ((refersTo_iff _ _).2 (.inr ⟨slot, hslot⟩)), struck,
        Table.get?_insert, if_pos rfl, Option.isSome_some]
  · obtain rfl := hsame hname hbound'
    have hthere := hdrops.within _ _ hget'
    rw [struck, Table.get?_insert, if_pos rfl] at hthere
    obtain rfl := Option.some.inj hthere
    exact (c.store.backend.bare_close (s.whileClosing entry'.number)).shows
  · obtain rfl := hsame hname hbound'
    obtain rfl := Option.some.inj (hget.symm.trans hget')
    exact hdrops.vanished tier ((htiers tier).trans (if_pos htier))
  · refine hdrops.vanished tier ((htiers tier).trans ?_)
    split
    · rfl
    · exact hnone

theorem Sound.forgets_removed (h : s.Sound) (hr : s.registry = some r) (name : String) :
    (s.remove r name).2.Sound ∧ Forgets s (· = name) (s.remove r name).2 := by
  cases hbound : r.caches.get? name with
  | none =>
    rw [remove_of_absent hbound]
    exact ⟨h, .refl fun name' hname => by rw [hname, binding?_of_registry hr, hbound]⟩
  | some entry => exact (h.forgets_remove hr hbound).2

theorem Sound.forgets_removeAll (names : List String) (h : s.Sound) :
    (s.removeAll names).Sound ∧ Forgets s (· ∈ names) (s.removeAll names) := by
  induction names generalizing s with
  | nil => exact ⟨h, .refl nofun⟩
  | cons name names ih =>
    rw [removeAll]
    split
    · rename_i hnone
      exact ⟨h, .refl fun _ _ => by rw [binding?, hnone, Option.bind_none]⟩
    · rename_i r hr
      obtain ⟨hfirst, hforgets⟩ := h.forgets_removed hr name
      obtain ⟨hsound, hrest⟩ := ih hfirst
      refine ⟨hsound, (hforgets.trans hrest h.toTied).mono ?_ ?_⟩
      · exact fun name' hname => List.mem_cons.2 hname
      · exact fun name' hname hnot => absurd (List.mem_cons.1 hname) hnot

theorem Sound.forgets_clear (h : s.Sound) : s.clear.Sound ∧ Forgets s (fun _ => True) s.clear := by
  unfold clear
  split
  · rename_i hnone
    exact ⟨h, .refl fun _ _ => by rw [binding?, hnone, Option.bind_none]⟩
  · rename_i r hr
    obtain ⟨hsound, hforgets⟩ := h.forgets_removeAll r.names
    refine ⟨hsound, hforgets.mono (fun _ _ => trivial) fun name _ hnot => ?_⟩
    rw [binding?_of_registry hr]
    refine Table.get?_eq_none_of_contains (Bool.eq_false_iff.2 fun hbound => hnot ?_)
    exact (r.caches.mem_keys name).2 hbound

end Session

end CacheLayer
