import CacheLayer.Proofs.Registry.Builders
import Mathlib.Logic.Relation

/-!
# Histories of a registry

A `History` is a session together with the builders that are kept and a record of the past: how each cache
was built, which ones were closed through a handle, and which ones the registry closed and forgot.

* `Deed` : what somebody does with a registry, with builders and with caches; `History.step`,
  `History.run`.
* `History.Move` : the few things that can happen to a session, whichever deed they are part of.
* `History.moves_step` : every deed comes to such moves, so that what they preserve lasts.
* `Moves.lasts`, `History.holds_run` : what moves preserve lasts through runs.
-/

namespace CacheLayer

variable {K : Type u} {V : Type v} {T : Type w}

/-! ## Deeds -/

/-- How a cache is asked for that is made where there is none: as by a `Recipe`, where the function of the
caller uses a builder that is kept in a slot. -/
inductive Plan (K : Type u) (V : Type v) where
  | plain (config : CacheConfig)
  | declared
  | populating (config : CacheConfig) (provider : Provider K V)
  | kept (slot : String) (making : Making K V)

namespace Plan

def recipe? (drafts : Table String Draft) : Plan K V → Option (Recipe K V)
  | plain config => some (.plain config)
  | declared => some .declared
  | populating config provider => some (.populating config provider)
  | kept slot making => (drafts.get? slot).map fun d => .custom (making.factory d.builder)

def origin? (drafts : Table String Draft) (r : Registry T) (name : String) :
    Plan K V → Option Origin
  | plain config => some ⟨config, r.defaultDirectory⟩
  | declared => (r.configuredFor name).map fun config => ⟨config, r.defaultDirectory⟩
  | populating config _ => some ⟨config, r.defaultDirectory⟩
  | kept slot _ => (drafts.get? slot).map Draft.origin

theorem from_origin {drafts : Table String Draft} {r : Registry T} {storage : T → Storage K V} {tag : T}
    {name : String} {plan : Plan K V} {recipe : Recipe K V} {f : Factory K V}
    (hrecipe : plan.recipe? drafts = some recipe)
    (hf : recipe.factory? r storage tag name = some f) :
    ∃ o, plan.origin? drafts r name = some o ∧ f.From o := by
  cases plan with
  | plain config =>
    obtain rfl := Option.some.inj hrecipe
    obtain rfl := Option.some.inj hf
    exact ⟨_, rfl, r.from_builder (storage tag) name config _⟩
  | declared =>
    obtain rfl := Option.some.inj hrecipe
    obtain ⟨config, hconfig, rfl⟩ := Option.map_eq_some_iff.1 hf
    exact ⟨_, congrArg (Option.map _) hconfig, r.from_builder (storage tag) name config _⟩
  | populating config provider =>
    obtain rfl := Option.some.inj hrecipe
    obtain rfl := Option.some.inj hf
    exact ⟨_, rfl, r.from_builder (storage tag) name config _⟩
  | kept slot making =>
    obtain ⟨d, hd, rfl⟩ := Option.map_eq_some_iff.1 hrecipe
    obtain rfl := Option.some.inj hf
    exact ⟨_, congrArg (Option.map _) hd, making.from_draft d⟩

end Plan

def Session.Call.MakesNone : Session.Call K V T → Prop
  | .acquire .. | .build .. => False
  | _ => True

/-- What somebody does with a registry, with builders and with caches. -/
inductive Deed (K : Type u) (V : Type v) (T : Type w) where
  | call (c : Session.Call K V T) (h : c.MakesNone)
  /-- Keeps a builder of the registry in a slot. -/
  | draft (slot name : String) (config : CacheConfig)
  /-- Keeps a builder in a slot that no registry made. -/
  | ownDraft (slot name : String) (config : CacheConfig)
  | revise (slot : String) (options : Builder → Builder)
  | acquire (tag : T) (name : String) (plan : Plan K V) (slot : Option String)
  /-- Builds a cache without registering it, with the builder in a slot. -/
  | build (tag : T) (draft : String) (making : Making K V) (slot : Option String)

/-- A session, the builders that are kept, and what happened before. -/
structure History (K : Type u) (V : Type v) (T : Type w) where
  session : Session K V T
  drafts : Table String Draft
  /-- What the cache of a number was built from. -/
  origins : Nat → Option Origin
  /-- The caches that were closed through a handle. -/
  shut : List Nat
  /-- The caches that the registry closed and forgot. -/
  struck : List Nat

namespace Session

variable [DecidableEq T]

def shuts (s : Session K V T) : Call K V T → List Nat
  | .use tag slot _ .close => (s.handle? tag slot).toList
  | _ => []

def numbersOf (s : Session K V T) (names : List String) : List Nat :=
  names.filterMap fun name => (s.binding? name).map Registration.number

def strikes (s : Session K V T) : Call K V T → List Nat
  | .remove name => s.numbersOf [name]
  | .clear | .dropRegistry => s.numbersOf ((s.registry.map Registry.names).getD [])
  | _ => []

end Session

namespace History

def start (registry : Registry T) (world : World) : History K V T :=
  ⟨.start registry world, .empty, fun _ => none, [], []⟩

def closed (h : History K V T) : List Nat := h.shut ++ h.struck

variable [DecidableEq K] [DecidableEq T]

def step (storage : T → Storage K V) (h : History K V T) : Deed K V T → History K V T
  | .call c _ =>
    { h with
      session := h.session.step storage c
      shut := h.shut ++ h.session.shuts c
      struck := h.struck ++ h.session.strikes c }
  | .draft slot name config =>
    { h with
      drafts := (h.session.registry.map fun r =>
        h.drafts.insert slot (.ofRegistry r name config)).getD h.drafts }
  | .ownDraft slot name config => { h with drafts := h.drafts.insert slot (.own name config) }
  | .revise slot options => { h with drafts := h.drafts.modify slot (·.revise options) }
  -- should a cache be made, it gets the next number
  | .acquire tag name plan slot =>
    { h with
      session := ((plan.recipe? h.drafts).map fun recipe =>
        h.session.step storage (.acquire tag name recipe slot)).getD h.session
      origins := Function.update h.origins h.session.nextNumber
        (h.session.registry.bind fun r => plan.origin? h.drafts r name) }
  | .build tag draft making slot =>
    ((h.drafts.get? draft).map fun d =>
      let out := h.session.buildWith (making.factory d.builder).run
      { h with
        session := out.2.settle tag slot out.1.toOption
        origins := Function.update h.origins h.session.nextNumber (some d.origin) }).getD h

def run (storage : T → Storage K V) (h : History K V T) (deeds : List (Deed K V T)) :
    History K V T :=
  deeds.foldl (step storage) h

theorem step_acquire_of_making (storage : T → Storage K V) {h : History K V T} {r : Registry T}
    {tag : T} {name : String} {plan : Plan K V} {recipe : Recipe K V} {f : Factory K V} {c : Cache K V}
    {w : World} (slot : Option String) (hr : h.session.registry = some r)
    (hrecipe : plan.recipe? h.drafts = some recipe)
    (hf : recipe.factory? r storage tag name = some f) (habsent : r.caches.get? name = none)
    (hmake : f.run h.session.world = (.ok c, w)) :
    h.step storage (.acquire tag name plan slot) = { h with
      session := (h.session.enrolled r tag name c w).settle tag slot (some h.session.nextNumber)
      origins := Function.update h.origins h.session.nextNumber (plan.origin? h.drafts r name) } := by
  have hacquire : h.session.acquire r storage tag name recipe =
      (⟨.ok h.session.nextNumber, true⟩, h.session.enrolled r tag name c w) := by
    rw [Session.acquire_eq, hf]
    exact Session.getOrCreateWith_of_making habsent hmake
  unfold step Session.step Session.withRegistry
  dsimp only
  rw [hrecipe, hr, Option.map_some, Option.map_some, Option.getD_some, Option.getD_some, hacquire]
  rfl

/-- What can happen to a session and is recorded in its history. -/
inductive Move : History K V T → History K V T → Prop
  /-- Names or handles go, or a handle is kept; so do builders. -/
  | refers {h : History K V T} {registry : Option (Registry T)} {handles : Table (T × String) Nat}
    {drafts : Table String Draft}
    (hnames : ∀ name entry, (registry.bind fun r => r.caches.get? name) = some entry →
      h.session.binding? name = some entry)
    (hhandles : ∀ slot n, handles.get? slot = some n → h.session.alive.contains n = true) :
    Move h { h with session := { h.session with registry, handles }, drafts }
  | drops {h : History K V T} {s : Session K V T} (hdrops : Session.Drops h.session s) :
    Move h { h with session := s }
  /-- What the next cache would be built from is recorded. -/
  | plans {h : History K V T} {o? : Option Origin} :
    Move h { h with origins := Function.update h.origins h.session.nextNumber o? }
  /-- Time passes, or nothing comes of building. -/
  | passes {h : History K V T} {w : World} (hw : h.session.world.area.Leaves w.area) :
    Move h { h with session := { h.session with world := w } }
  | builds {h : History K V T} {o : Origin} {c : Cache K V} {w : World}
    (ho : h.origins h.session.nextNumber = some o)
    (hfounded : c.store.backend.Founded h.session.world.area w.area)
    (hhoused : o.Houses h.session.world.area c.tier? w.area) :
    Move h { h with session := (({ h.session with world := w } : Session K V T).adopt c).2 }
  | enrols {h : History K V T} {r : Registry T} {tag : T} {name : String} {o : Origin} {c : Cache K V}
    {w : World} (hr : h.session.registry = some r)
    (ho : h.origins h.session.nextNumber = some o)
    (hfounded : c.store.backend.Founded h.session.world.area w.area)
    (hhoused : o.Houses h.session.world.area c.tier? w.area) :
    Move h { h with session := h.session.enrolled r tag name c w }
  | works {h : History K V T} {n : Nat} {c : Cache K V} {w : World} {op : Cache.Op K V}
    (hopen : op ≠ .close) (hget : h.session.alive.get? n = some c)
    (hw : w.area = h.session.world.area) :
    Move h { h with session := { h.session with
      alive := h.session.alive.insert n (c.perform w op), world := c.worldAfter w op } }
  | shuts {h : History K V T} {n : Nat} {c : Cache K V} {w : World}
    (hget : h.session.alive.get? n = some c) (hw : w.area = h.session.world.area) :
    Move h { h with
      session := { h.session with
        alive := h.session.alive.insert n (c.close w).state, world := (c.close w).world }
      shut := h.shut ++ [n] }
  | strikes {h : History K V T} {r : Registry T} {name : String} {entry : Registration T}
    {c : Cache K V} (hr : h.session.registry = some r)
    (hbound : h.session.binding? name = some entry)
    (hget : h.session.alive.get? entry.number = some c) :
    Move h { h with
      session := h.session.struck r name entry.number c
      struck := h.struck ++ [entry.number] }

abbrev Moves : History K V T → History K V T → Prop := Relation.ReflTransGen Move

/-! ### Deeds come to moves -/

section Deeds

variable {h : History K V T} {storage : T → Storage K V} {r : Registry T}

theorem moves_settle (htied : h.session.Tied) (tag : T) (slot : Option String) {found : Option Nat}
    (hfound : ∀ n, found = some n → h.session.alive.contains n = true) :
    Moves h { h with session := h.session.settle tag slot found } := by
  obtain ⟨handles, hhandles, hsettle⟩ := htied.settle tag slot hfound
  rw [hsettle]
  have hkeeps : Move h { h with session := { h.session with handles } } :=
    .refers (fun _ _ hbound => hbound) hhandles.handled
  exact .tail (.single hkeeps) (.drops (Session.drops_collect _))

theorem moves_acquire (htied : h.session.Tied) (hr : h.session.registry = some r) (tag : T)
    (name : String) {plan : Plan K V} {recipe : Recipe K V} (slot : Option String)
    (hrecipe : plan.recipe? h.drafts = some recipe) :
    let out := h.session.acquire r storage tag name recipe
    Moves h { h with
      session := out.2.settle tag slot out.1.found.toOption
      origins := Function.update h.origins h.session.nextNumber (plan.origin? h.drafts r name) } := by
  intro out
  let planned : History K V T := { h with
    origins := Function.update h.origins h.session.nextNumber (plan.origin? h.drafts r name) }
  have hplans : Move h planned := .plans
  obtain ⟨hafter, hfound⟩ := htied.acquire hr storage tag name recipe
  have hasked : Moves planned { planned with session := out.2 } := by
    have hasks := h.session.acquire_asks r storage tag name recipe
    have horigin : ∀ f, recipe.factory? r storage tag name = some f →
        ∃ o, planned.origins planned.session.nextNumber = some o ∧ f.From o := by
      intro f hf
      obtain ⟨o, ho, hfrom⟩ := Plan.from_origin hrecipe hf
      exact ⟨o, (Function.update_self ..).trans ho, hfrom⟩
    show Moves planned { planned with session := (h.session.acquire r storage tag name recipe).2 }
    generalize recipe.factory? r storage tag name = f? at hasks horigin
    generalize h.session.acquire r storage tag name recipe = out at hasks
    cases hasks with
    | undeclared => exact .refl
    | bound hbound => exact .refl
    | failing habsent hmake =>
      obtain ⟨o, -, hfrom⟩ := horigin _ rfl
      exact .single (.passes (h := planned) (hfrom.failing _ _ _ hmake))
    | making habsent hmake =>
      obtain ⟨o, ho, hfrom⟩ := horigin _ rfl
      exact .single (.enrols (h := planned) hr ho (Factory.founded_of_run hmake)
        (hfrom.making _ _ _ hmake))
  have hsettles := moves_settle (h := { planned with session := out.2 }) hafter tag slot
    fun n hn => hfound n (eq_ok_of_toOption hn)
  exact .trans (.head hplans hasked) hsettles

theorem moves_build (htied : h.session.Tied) {f : Factory K V} {o : Origin} (hfrom : f.From o) (tag : T)
    (slot : Option String) :
    Moves h { h with
      session := (h.session.buildWith f.run).2.settle tag slot
        (h.session.buildWith f.run).1.toOption
      origins := Function.update h.origins h.session.nextNumber (some o) } := by
  let planned : History K V T := { h with
    origins := Function.update h.origins h.session.nextNumber (some o) }
  have hplans : Move h planned := .plans
  have ho : planned.origins planned.session.nextNumber = some o := Function.update_self ..
  refine .head hplans ?_
  cases hmake : f.run h.session.world with
  | mk made w =>
    cases made with
    | error e =>
      rw [Session.buildWith_of_failing hmake]
      have hleaves := hfrom.failing _ _ _ hmake
      have hpasses : Move planned { planned with session := { h.session with world := w } } :=
        .passes (h := planned) hleaves
      exact .head hpasses (moves_settle (h := { planned with session := { h.session with world := w } })
        (htied.world hleaves.grows) tag slot nofun)
    | ok c =>
      rw [Session.buildWith_of_making hmake]
      have hfounded := Factory.founded_of_run hmake
      have hbuilds : Move planned { planned with
          session := (({ h.session with world := w } : Session K V T).adopt c).2 } :=
        .builds (h := planned) ho hfounded (hfrom.making _ _ _ hmake)
      refine .head hbuilds (moves_settle (h := { planned with
        session := (({ h.session with world := w } : Session K V T).adopt c).2 })
        (htied.adopt hfounded) tag slot ?_)
      intro n hn
      obtain rfl := Option.some.inj hn
      exact Session.contains_adopt { h.session with world := w } c

theorem moves_remove (hsound : h.session.Sound) (hr : h.session.registry = some r) (name : String) :
    Moves h { h with
      session := (h.session.remove r name).2
      struck := h.struck ++ h.session.numbersOf [name] } := by
  have hbinding := Session.binding?_of_registry hr name
  cases hbound : r.caches.get? name with
  | none =>
    have hnone : h.session.numbersOf [name] = [] := by
      simp [Session.numbersOf, hbinding, hbound]
    rw [Session.remove_of_absent hbound, hnone, List.append_nil]
  | some entry =>
    rw [hbound] at hbinding
    obtain ⟨c, hget⟩ := Table.get?_of_contains (hsound.known name entry hbinding)
    have hone : h.session.numbersOf [name] = [entry.number] := by
      simp [Session.numbersOf, hbinding]
    rw [Session.remove_of_bound hbound hget, hone]
    exact .tail (.single (.strikes hr hbinding hget)) (.drops (Session.drops_collect _))

theorem moves_removeAll {names : List String} (hnodup : names.Nodup) (hsound : h.session.Sound) :
    Moves h { h with
      session := h.session.removeAll names
      struck := h.struck ++ h.session.numbersOf names } := by
  induction names generalizing h with
  | nil =>
    rw [Session.removeAll, Session.numbersOf, List.filterMap_nil, List.append_nil]
  | cons name names ih =>
    obtain ⟨hnew, hnodup⟩ := List.nodup_cons.1 hnodup
    rw [Session.removeAll]
    split
    · rename_i hnone
      have hunbound : h.session.numbersOf (name :: names) = [] := by
        simp [Session.numbersOf, Session.binding?, hnone]
      rw [hunbound, List.append_nil]
    · rename_i r hr
      obtain ⟨hremoved, hforgets⟩ := hsound.forgets_removed hr name
      -- the other names are bound to what they were bound to
      have hrest : (h.session.remove r name).2.numbersOf names = h.session.numbersOf names := by
        refine List.filterMap_congr fun name' hname' => ?_
        rw [hforgets.others name' fun hsame => hnew (hsame ▸ hname')]
      have hsplit : h.session.numbersOf (name :: names) =
          h.session.numbersOf [name] ++ h.session.numbersOf names :=
        List.filterMap_append (l := [name]) ..
      have hlater := ih (h := { h with
        session := (h.session.remove r name).2
        struck := h.struck ++ h.session.numbersOf [name] }) hnodup hremoved
      rw [hsplit, ← List.append_assoc, ← hrest]
      exact (moves_remove hsound hr name).trans hlater

theorem moves_clear (hsound : h.session.Sound) :
    Moves h { h with
      session := h.session.clear
      struck := h.struck ++
        h.session.numbersOf ((h.session.registry.map Registry.names).getD []) } := by
  unfold Session.clear
  split
  · rename_i hnone
    rw [hnone]
    show Moves h { h with struck := h.struck ++ [] }
    rw [List.append_nil]
  · rename_i r hr
    rw [hr]
    exact moves_removeAll r.caches.nodup_keys hsound

theorem moves_dropRegistry (hsound : h.session.Sound) :
    Moves h { h with
      session := h.session.dropRegistry
      struck := h.struck ++
        h.session.numbersOf ((h.session.registry.map Registry.names).getD []) } := by
  refine .tail (.tail (moves_clear hsound) (.refers ?_ ?_)) (.drops (Session.drops_collect _))
  · exact fun _ _ hbound => nomatch hbound
  · exact hsound.forgets_clear.1.handled

theorem moves_use (hsound : h.session.Sound) (tag : T) (slot : String) (held : List Nat)
    (op : Cache.Op K V) :
    Moves h { h with
      session := ((h.session.handle? tag slot).bind fun n => h.session.work n held op).getD h.session
      shut := h.shut ++ h.session.shuts (.use tag slot held op) } := by
  cases hslot : h.session.handle? tag slot with
  | none =>
    have hnone : h.session.shuts (.use tag slot held op) = [] := by
      cases op <;> simp [Session.shuts, hslot]
    rw [hnone, List.append_nil]
    exact .refl
  | some n =>
    obtain ⟨c, hget⟩ := Table.get?_of_contains (hsound.handled _ n hslot)
    obtain ⟨w, hw, hwork⟩ := Session.work_of_alive hget held op
    rw [Option.bind_some, hwork, Option.getD_some]
    by_cases hopen : op = .close
    · subst hopen
      have hone : h.session.shuts (.use tag slot held .close) = [n] := by
        rw [Session.shuts, hslot, Option.toList_some]
      rw [hone]
      exact .single (.shuts hget hw)
    · have hnone : h.session.shuts (.use tag slot held op) = [] := by
        cases op <;> first | rfl | exact absurd rfl hopen
      rw [hnone, List.append_nil]
      exact .single (.works hopen hget hw)

theorem moves_withRegistry {f : Registry T → Session K V T}
    (hf : ∀ r, h.session.registry = some r → Moves h { h with session := f r }) :
    Moves h { h with session := h.session.withRegistry f } := by
  unfold Session.withRegistry
  cases hr : h.session.registry with
  | none => exact .refl
  | some r => exact hf r hr

theorem moves_forget (hsound : h.session.Sound) (tag : T) (slot : String) :
    Moves h { h with session := (h.session.forget tag slot).2 } := by
  have hforgets : Move h { h with session := { h.session with
      handles := h.session.handles.erase (tag, slot) } } := by
    refine .refers (fun _ _ hbound => hbound) fun slot' n hslot => ?_
    rw [Table.get?_erase] at hslot
    split at hslot
    · cases hslot
    · exact hsound.handled slot' n hslot
  exact .tail (.single hforgets) (.drops (Session.drops_collect _))

theorem moves_call (hsound : h.session.Sound) {c : Session.Call K V T} (hc : c.MakesNone) :
    Moves h { h with
      session := h.session.step storage c
      shut := h.shut ++ h.session.shuts c
      struck := h.struck ++ h.session.strikes c } := by
  have hrecord {s : Session K V T} {shut struck : List Nat}
      (hshut : h.shut ++ h.session.shuts c = shut) (hstruck : h.struck ++ h.session.strikes c = struck)
      (hmoves : Moves h { h with session := s, shut, struck }) :
      Moves h { h with
        session := s
        shut := h.shut ++ h.session.shuts c
        struck := h.struck ++ h.session.strikes c } := by
    rwa [hshut, hstruck]
  cases c with
  | acquire tag name recipe slot => exact hc.elim
  | build tag name config slot => exact hc.elim
  | get tag name slot =>
    refine hrecord (List.append_nil _) (List.append_nil _)
      (moves_withRegistry fun r hr => moves_settle hsound.toTied tag slot fun n hn => ?_)
    obtain ⟨entry, hbound, rfl⟩ := Registry.bound_of_find hn
    exact hsound.known name entry ((Session.binding?_of_registry hr name).trans hbound)
  | remove name =>
    refine hrecord (List.append_nil _) rfl ?_
    show Moves h { h with session := h.session.withRegistry _, struck := _ }
    unfold Session.withRegistry
    cases hr : h.session.registry with
    | none =>
      have hnone : h.session.strikes (.remove name) = [] := by
        simp [Session.strikes, Session.numbersOf, Session.binding?, hr]
      rw [hnone, List.append_nil]
      exact .refl
    | some r => exact moves_remove hsound hr name
  | clear => exact hrecord (List.append_nil _) rfl (moves_clear hsound)
  | setDefaultDirectory directory =>
    refine hrecord (List.append_nil _) (List.append_nil _)
      (moves_withRegistry fun r hr => .single (.refers ?_ hsound.handled))
    exact fun name entry hbound => (Session.binding?_of_registry hr name).trans hbound
  | dropRegistry => exact hrecord (List.append_nil _) rfl (moves_dropRegistry hsound)
  | use tag slot held op => exact hrecord rfl (List.append_nil _) (moves_use hsound tag slot held op)
  | forget tag slot => exact hrecord (List.append_nil _) (List.append_nil _) (moves_forget hsound tag slot)
  | wait nanos =>
    exact hrecord (List.append_nil _) (List.append_nil _) (.single (.passes (.refl _)))

theorem moves_step (hsound : h.session.Sound) (deed : Deed K V T) : Moves h (h.step storage deed) := by
  cases deed with
  | call c hc => exact moves_call hsound hc
  | draft slot name config =>
    exact .single (.refers (fun _ _ hbound => hbound) hsound.handled)
  | ownDraft slot name config =>
    exact .single (.refers (fun _ _ hbound => hbound) hsound.handled)
  | revise slot options =>
    exact .single (.refers (fun _ _ hbound => hbound) hsound.handled)
  | acquire tag name plan slot =>
    unfold step
    dsimp only
    have hplans : Move h { h with
        origins := Function.update h.origins h.session.nextNumber
          (h.session.registry.bind fun r => plan.origin? h.drafts r name) } := .plans
    cases hrecipe : plan.recipe? h.drafts with
    | none => exact .single hplans
    | some recipe =>
      show Moves h { h with session := h.session.withRegistry _, origins := _ }
      unfold Session.withRegistry
      cases hr : h.session.registry with
      | none =>
        rw [hr] at hplans
        exact .single hplans
      | some r => exact moves_acquire hsound.toTied hr tag name slot hrecipe
  | build tag draft making slot =>
    unfold step
    dsimp only
    cases hd : h.drafts.get? draft with
    | none => exact .refl
    | some d => exact moves_build hsound.toTied (making.from_draft d) tag slot

end Deeds

/-! ### What moves preserve -/

section Runs

variable {h h' : History K V T}

omit [DecidableEq K] in
theorem sound_start {r : Registry T} (hr : r.caches = .empty) (w : World) :
    (start r w : History K V T).session.Sound := Session.sound_start hr w

theorem sound_step (storage : T → Storage K V) (hsound : h.session.Sound) (deed : Deed K V T) :
    (h.step storage deed).session.Sound := by
  cases deed with
  | call c hc => exact (hsound.continues_step storage c).sound
  | acquire tag name plan slot =>
    unfold step
    dsimp only
    cases plan.recipe? h.drafts with
    | none => exact hsound
    | some recipe => exact (hsound.continues_step storage (.acquire tag name recipe slot)).sound
  | build tag draft making slot =>
    unfold step
    dsimp only
    cases h.drafts.get? draft with
    | none => exact hsound
    | some d => exact (Session.continues_buildWith hsound _ tag slot fun _ => True).sound
  | _ => exact hsound

theorem moves_run (storage : T → Storage K V) (deeds : List (Deed K V T)) (hsound : h.session.Sound) :
    Moves h (h.run storage deeds) ∧ (h.run storage deeds).session.Sound := by
  induction deeds generalizing h with
  | nil => exact ⟨.refl, hsound⟩
  | cons deed deeds ih =>
    obtain ⟨hmoves, hlast⟩ := ih (sound_step storage hsound deed)
    exact ⟨(moves_step hsound deed).trans hmoves, hlast⟩

theorem Move.tied (hmove : Move h h') (htied : h.session.Tied) : h'.session.Tied := by
  cases hmove with
  | refers hnames hhandles => exact htied.names hnames hhandles
  | drops hdrops => exact htied.drops hdrops
  | plans => exact htied
  | passes hw => exact htied.world hw.grows
  | builds ho hfounded hhoused => exact htied.adopt hfounded
  | enrols hr ho hfounded hhoused => exact htied.enrolled hr _ _ hfounded
  | works hopen hget hw => exact htied.on hget hw (Cache.uses_perform _ _ _)
  | @shuts n c w hget hw => exact htied.on hget hw (c.store.backend.uses_close w)
  | strikes hr hbound hget => exact htied.struck hr hget _

/-- What every move of a tied session preserves lasts. -/
theorem Moves.lasts {P : History K V T → Prop} (hmoves : Moves h h') (htied : h.session.Tied)
    (hstart : P h) (hmove : ∀ {h h'}, h.session.Tied → P h → Move h h' → P h') : P h' := by
  have hall : h'.session.Tied ∧ P h' := by
    induction hmoves with
    | refl => exact ⟨htied, hstart⟩
    | tail _ hlast ih => exact ⟨hlast.tied ih.1, hmove ih.1 ih.2 hlast⟩
  exact hall.2

theorem holds_run {P : History K V T → Prop} (storage : T → Storage K V)
    (config : Option RegistryConfig) (w : World) (deeds : List (Deed K V T))
    (hstart : P (start (Registry.opened config) w))
    (hmove : ∀ {h h'}, h.session.Tied → P h → Move h h' → P h') :
    let h := (start (Registry.opened config) w).run storage deeds
    h.session.Sound ∧ P h := by
  have hsound : (start (Registry.opened config) w : History K V T).session.Sound :=
    sound_start (Registry.caches_opened config) w
  obtain ⟨hmoves, hlast⟩ := moves_run storage deeds hsound
  exact ⟨hlast, hmoves.lasts hsound.toTied hstart hmove⟩

end Runs

end History

end CacheLayer
