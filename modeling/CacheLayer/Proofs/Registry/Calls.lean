import CacheLayer.Proofs.Registry.Forgetting

/-!
# Calls of a registry, one after another

A `Call` is what a single thread may do: ask for a cache in any of the five ways, build one that is not
registered, remove names, use and drop handles, let time pass. `Session.run` makes calls in turn.

* `Factory` : what makes a cache anew; `Recipe` : the four ways to ask for a cache that may not be there.
* `Session.acquire_asks` : what asking comes to; the four ways differ in their factory alone.
* `Sound.continues_step`, `Sound.continues_run` : calls keep a session sound, do not give a number out
  again, and leave the names that they do not remove bound to what they were bound to.
-/

namespace CacheLayer

variable {K : Type u} {V : Type v} {T : Type w}

/-! ## Results that may be errors -/

section Results

variable {x : Except ε α}

theorem eq_ok_of_toOption {a : α} (h : x.toOption = some a) : x = .ok a := by
  cases x with
  | error e => cases h
  | ok b => exact congrArg Except.ok (Option.some.inj h)

theorem exists_of_map_eq_ok {f : α → β} {b : β} (h : x.map f = .ok b) : ∃ a, x = .ok a ∧ f a = b := by
  cases x with
  | error e => cases h
  | ok a => exact ⟨a, rfl, Except.ok.inj h⟩

theorem eq_error_of_map {f : α → β} {e : ε} (h : x.map f = .error e) : x = .error e := by
  cases x with
  | error e' => exact congrArg Except.error (Except.error.inj h)
  | ok a => cases h

end Results

/-! ## Making caches -/

/-- The cache was built by some builder on the way from one world to another, and besides at most new
directories were made. -/
def Backend.Fresh (w : World) (c : Backend K V) (w' : World) : Prop :=
  ∃ (b : Builder) (st : Storage K V) (kind : CacheKind) (w₁ w₂ : World),
    w.area.Grows w₁.area ∧ b.buildKind st w₁ kind = (.ok c, w₂) ∧ w₂.area.Grows w'.area

theorem Backend.Fresh.founded [DecidableEq K] {w w' : World} {c : Backend K V} (h : c.Fresh w w') :
    c.Founded w.area w'.area := by
  obtain ⟨b, st, kind, w₁, w₂, hbefore, hbuilt, hafter⟩ := h
  exact (Builder.founded_buildKind hbuilt).within hbefore hafter

/-- A function that builds a cache or fails. It may do other things and take its time, but leaves the
private directories that exist as they are. -/
structure Factory (K : Type u) (V : Type v) where
  run : World → Except CacheError (Cache K V) × World
  grows : ∀ w : World, w.area.Grows (run w).2.area
  fresh : ∀ (w : World) c, (run w).1 = .ok c → c.store.backend.Fresh w (run w).2

namespace Factory

variable {f : Factory K V} {w w' : World}

theorem grows_of_run {made : Except CacheError (Cache K V)} (h : f.run w = (made, w')) :
    w.area.Grows w'.area := by
  have hgrows := f.grows w
  rwa [h] at hgrows

theorem founded_of_run [DecidableEq K] {c : Cache K V} (h : f.run w = (.ok c, w')) :
    c.store.backend.Founded w.area w'.area := by
  have hfresh := f.fresh w c (congrArg Prod.fst h)
  rw [h] at hfresh
  exact hfresh.founded

/-- Builds a cache with `b` and puts it under layers. -/
def built (b : Builder) (st : Storage K V) (layers : List (Layer K V)) : Factory K V where
  run w := ((b.build st w).1.map fun backend => ⟨⟨backend, []⟩, layers⟩, (b.build st w).2)
  grows w := b.grows_buildKind st w b.config.kind
  fresh w c hc := by
    cases hbuilt : b.build st w with
    | mk built w' =>
      cases built with
      | error e =>
        rw [hbuilt] at hc
        cases hc
      | ok backend =>
        rw [hbuilt] at hc
        cases hc
        exact ⟨b, st, b.config.kind, w, w', .refl _, hbuilt, .refl _⟩

end Factory

/-- How a cache is asked for that is made where there is none. -/
inductive Recipe (K : Type u) (V : Type v) where
  /-- Built from a configuration. -/
  | plain (config : CacheConfig)
  /-- Built from the declared configuration of its name. -/
  | declared
  /-- Built from a configuration, under a layer with a provider. -/
  | populating (config : CacheConfig) (provider : Provider K V)
  /-- Made by a function of the caller. -/
  | custom (factory : Factory K V)

/-- What makes the cache; there is nothing to make it from if it has to be declared and is not. -/
def Recipe.factory? (recipe : Recipe K V) (r : Registry T) (storage : T → Storage K V) (tag : T)
    (name : String) : Option (Factory K V) :=
  match recipe with
  | plain config => some (.built (r.builder name config) (storage tag) [])
  | declared => (r.configuredFor name).map fun config =>
      .built (r.builder name config) (storage tag) []
  | populating config provider =>
    let b := r.builder name config
    some (.built b (storage tag) [.make provider b.fetchMode b.failurePolicy])
  | custom factory => some factory

namespace Session

variable [DecidableEq T]

def acquire (s : Session K V T) (r : Registry T) (storage : T → Storage K V) (tag : T) (name : String) :
    Recipe K V → Acquired × Session K V T
  | .plain config => s.getOrCreate r storage tag name config
  | .declared => s.getOrCreateConfigured r storage tag name
  | .populating config provider => s.getOrCreatePopulating r storage tag name config provider
  | .custom factory => s.getOrCreateWith r tag name factory.run

theorem acquire_eq (s : Session K V T) (r : Registry T) (storage : T → Storage K V) (tag : T)
    (name : String) (recipe : Recipe K V) : s.acquire r storage tag name recipe =
      match recipe.factory? r storage tag name with
      | none => (⟨.error (.unknownCache name), false⟩, s)
      | some f => s.getOrCreateWith r tag name f.run := by
  cases recipe with
  | declared =>
    show s.getOrCreateConfigured r storage tag name = _
    unfold getOrCreateConfigured Recipe.factory?
    cases r.configuredFor name <;> rfl
  | _ => rfl

end Session

/-- What asking for a name gives that is registered so: its cache, if it is of the types asked for. -/
def Registration.answer [DecidableEq T] (entry : Registration T) (tag : T) (name : String) :
    Except CacheError Nat :=
  if entry.tag = tag then .ok entry.number else .error (.typeMismatch name)

theorem Registration.eq_of_answer [DecidableEq T] {entry : Registration T} {tag : T} {name : String}
    {n : Nat} (h : entry.answer tag name = .ok n) : entry.number = n := by
  unfold answer at h
  split at h
  · exact Except.ok.inj h
  · cases h

section Asking

variable [DecidableEq T] {s : Session K V T} {r : Registry T} {name : String} {tag : T}
  {make : World → Except CacheError (Cache K V) × World}

theorem Registry.find_of_bound {entry : Registration T} (h : r.caches.get? name = some entry)
    (tag : T) : r.find tag name = (entry.answer tag name).map some := by
  unfold find Registration.answer
  rw [h]
  dsimp only
  split <;> rfl

theorem Registry.find_of_absent (h : r.caches.get? name = none) (tag : T) :
    r.find tag name = .ok none := by
  rw [find, h]

theorem Registry.bound_of_find {n : Nat} (h : (r.find tag name).toOption.join = some n) :
    ∃ entry, r.caches.get? name = some entry ∧ entry.number = n := by
  cases hbound : r.caches.get? name with
  | none =>
    rw [find_of_absent hbound] at h
    cases h
  | some entry =>
    rw [find_of_bound hbound] at h
    cases hanswer : entry.answer tag name with
    | error e =>
      rw [hanswer] at h
      cases h
    | ok number =>
      rw [hanswer] at h
      cases h
      exact ⟨entry, rfl, Registration.eq_of_answer hanswer⟩

namespace Session

theorem getOrCreateWith_of_bound {entry : Registration T} (h : r.caches.get? name = some entry) :
    s.getOrCreateWith r tag name make = (⟨entry.answer tag name, false⟩, s) := by
  rw [getOrCreateWith, Registry.find_of_bound h]
  unfold Registration.answer
  split <;> rename_i heq <;> split at heq <;> cases heq
  · rename_i htag
    rw [if_neg htag]
  · rename_i htag
    rw [if_pos htag]

theorem getOrCreateWith_of_failing {e : CacheError} {w : World} (h : r.caches.get? name = none)
    (hmake : make s.world = (.error e, w)) :
    s.getOrCreateWith r tag name make = (⟨.error e, true⟩, { s with world := w }) := by
  rw [getOrCreateWith, Registry.find_of_absent h, hmake]

/-- The session in which a cache that was just made has got a number and a name. -/
def enrolled (s : Session K V T) (r : Registry T) (tag : T) (name : String) (c : Cache K V)
    (w : World) : Session K V T :=
  { (({ s with world := w } : Session K V T).adopt c).2 with
    registry := some { r with caches := r.caches.insert name ⟨s.nextNumber, tag, c.cacheType⟩ } }

omit [DecidableEq T] in
theorem binding?_enrolled (hr : s.registry = some r) (name' : String) (c : Cache K V) (w : World) :
    (s.enrolled r tag name c w).binding? name' =
      if name' = name then some ⟨s.nextNumber, tag, c.cacheType⟩ else s.binding? name' := by
  rw [binding?_of_registry hr]
  exact Table.get?_insert ..

theorem getOrCreateWith_of_making {c : Cache K V} {w : World} (h : r.caches.get? name = none)
    (hmake : make s.world = (.ok c, w)) : s.getOrCreateWith r tag name make =
      (⟨.ok s.nextNumber, true⟩, s.enrolled r tag name c w) := by
  rw [getOrCreateWith, Registry.find_of_absent h, hmake]
  rfl

end Session

end Asking

namespace Session

variable [DecidableEq K] [DecidableEq T] {s s' s'' : Session K V T} {r : Registry T}

theorem Tied.enrolled (h : s.Tied) (hr : s.registry = some r) (tag : T) (name : String) {c : Cache K V}
    {w : World} (hc : c.store.backend.Founded s.world.area w.area) :
    (s.enrolled r tag name c w).Tied := by
  refine (h.adopt hc).register hr ?_ fun name' entry' hbound => ?_
  · exact contains_adopt { s with world := w } c
  · exact Nat.ne_of_lt (h.fresh _ (h.known name' entry' hbound))

/-- What asking for a cache comes to, with what it would be made by. -/
inductive Asks (s : Session K V T) (r : Registry T) (tag : T) (name : String) :
    Option (Factory K V) → Acquired × Session K V T → Prop
  | undeclared : Asks s r tag name none (⟨.error (.unknownCache name), false⟩, s)
  | bound {f : Factory K V} {entry : Registration T} (hbound : r.caches.get? name = some entry) :
    Asks s r tag name (some f) (⟨entry.answer tag name, false⟩, s)
  | failing {f : Factory K V} {e : CacheError} {w : World} (habsent : r.caches.get? name = none)
    (hmake : f.run s.world = (.error e, w)) :
    Asks s r tag name (some f) (⟨.error e, true⟩, { s with world := w })
  | making {f : Factory K V} {c : Cache K V} {w : World} (habsent : r.caches.get? name = none)
    (hmake : f.run s.world = (.ok c, w)) :
    Asks s r tag name (some f) (⟨.ok s.nextNumber, true⟩, s.enrolled r tag name c w)

omit [DecidableEq K] in
theorem acquire_asks (s : Session K V T) (r : Registry T) (storage : T → Storage K V) (tag : T)
    (name : String) (recipe : Recipe K V) :
    Asks s r tag name (recipe.factory? r storage tag name) (s.acquire r storage tag name recipe) := by
  rw [acquire_eq]
  cases recipe.factory? r storage tag name with
  | none => exact .undeclared
  | some f =>
    dsimp only
    cases hbound : r.caches.get? name with
    | some entry =>
      rw [getOrCreateWith_of_bound hbound]
      exact .bound hbound
    | none =>
      cases hmake : f.run s.world with
      | mk made w =>
        cases made with
        | error e =>
          rw [getOrCreateWith_of_failing hbound hmake]
          exact .failing hbound hmake
        | ok c =>
          rw [getOrCreateWith_of_making hbound hmake]
          exact .making hbound hmake

theorem Tied.acquire (h : s.Tied) (hr : s.registry = some r) (storage : T → Storage K V) (tag : T)
    (name : String) (recipe : Recipe K V) :
    let out := s.acquire r storage tag name recipe
    out.2.Tied ∧ ∀ n, out.1.found = .ok n → out.2.alive.contains n = true := by
  have hasks := s.acquire_asks r storage tag name recipe
  generalize recipe.factory? r storage tag name = f? at hasks
  generalize s.acquire r storage tag name recipe = out at hasks ⊢
  cases hasks with
  | undeclared => exact ⟨h, nofun⟩
  | @bound f entry hbound =>
    refine ⟨h, fun n hn => ?_⟩
    obtain rfl := Registration.eq_of_answer hn
    exact h.known name entry ((binding?_of_registry hr name).trans hbound)
  | failing habsent hmake => exact ⟨h.world (Factory.grows_of_run hmake), nofun⟩
  | @making f c w habsent hmake =>
    refine ⟨h.enrolled hr tag name (Factory.founded_of_run hmake), fun n hn => ?_⟩
    obtain rfl := Except.ok.inj hn
    exact contains_adopt { s with world := w } c

omit [DecidableEq K] in
theorem bound_of_acquire (hr : s.registry = some r) {storage : T → Storage K V} {tag : T}
    {name : String} {recipe : Recipe K V} {n : Nat}
    (hn : (s.acquire r storage tag name recipe).1.found.toOption = some n) :
    ∃ entry, (s.acquire r storage tag name recipe).2.binding? name = some entry ∧ entry.number = n := by
  have hasks := s.acquire_asks r storage tag name recipe
  generalize recipe.factory? r storage tag name = f? at hasks
  generalize s.acquire r storage tag name recipe = out at hasks hn ⊢
  cases hasks with
  | undeclared => cases hn
  | @bound f entry hbound =>
    have hanswer : entry.answer tag name = .ok n := eq_ok_of_toOption hn
    exact ⟨entry, (binding?_of_registry hr name).trans hbound, Registration.eq_of_answer hanswer⟩
  | failing habsent hmake => cases hn
  | making habsent hmake =>
    exact ⟨_, (binding?_enrolled hr name ..).trans (if_pos rfl), Option.some.inj hn⟩

theorem Sound.acquire_of_error (h : s.Sound) (hr : s.registry = some r) (storage : T → Storage K V)
    (tag : T) (name : String) (recipe : Recipe K V) {e : CacheError}
    (he : (s.acquire r storage tag name recipe).1.found = .error e) :
    (s.acquire r storage tag name recipe).2.Sound := by
  have htied := (h.toTied.acquire hr storage tag name recipe).1
  have hasks := s.acquire_asks r storage tag name recipe
  generalize recipe.factory? r storage tag name = f? at hasks
  generalize s.acquire r storage tag name recipe = out at hasks he htied ⊢
  cases hasks with
  | undeclared => exact h
  | bound hbound => exact h
  | failing habsent hmake => exact ⟨htied, h.referred⟩
  | making habsent hmake => cases he

omit [DecidableEq K] [DecidableEq T] in
def buildWith (s : Session K V T) (make : World → Except CacheError (Cache K V) × World) :
    Except CacheError Nat × Session K V T :=
  match make s.world with
  | (.error e, world) => (.error e, { s with world })
  | (.ok cache, world) =>
    let (number, s) := { s with world }.adopt cache
    (.ok number, s)

section Building

variable {make : World → Except CacheError (Cache K V) × World} {w : World}

omit [DecidableEq K] [DecidableEq T] in
theorem buildWith_of_failing {e : CacheError} (h : make s.world = (.error e, w)) :
    s.buildWith make = (.error e, { s with world := w }) := by
  rw [buildWith, h]

omit [DecidableEq K] [DecidableEq T] in
theorem buildWith_of_making {c : Cache K V} (h : make s.world = (.ok c, w)) :
    s.buildWith make = (.ok s.nextNumber, (({ s with world := w } : Session K V T).adopt c).2) := by
  rw [buildWith, h]
  rfl

omit [DecidableEq K] [DecidableEq T] in
theorem build_eq (s : Session K V T) (r : Registry T) (storage : T → Storage K V) (tag : T)
    (name : String) (config : CacheConfig) : s.build r storage tag name config =
      s.buildWith (Factory.built (r.builder name config) (storage tag) []).run := by
  unfold build buildWith Factory.built
  dsimp only
  cases (r.builder name config).build (storage tag) s.world with
  | mk built w => cases built <;> rfl

end Building

/-! ## Calls -/

omit [DecidableEq T] in
/-- Something happens to a cache, while somebody holds the objects listed. -/
def work (s : Session K V T) (n : Nat) (held : List Nat) (op : Cache.Op K V) :
    Option (Session K V T) :=
  (s.on n held fun c w => ⟨(), c.perform w op, c.worldAfter w op, []⟩).map Prod.snd

omit [DecidableEq K] in
/-- A cache that was found is kept in a slot, if there is one. -/
def settle (s : Session K V T) (tag : T) (slot : Option String) (found : Option Nat) :
    Session K V T :=
  match slot, found with
  | some slot, some n => s.keep tag slot n
  | _, _ => s.collect

omit [DecidableEq K] in
theorem binding?_settle (s : Session K V T) (tag : T) (slot : Option String) (found : Option Nat)
    (name : String) : (s.settle tag slot found).binding? name = s.binding? name := by
  unfold settle
  split
  · exact (drops_collect _).binding? name
  · exact (drops_collect s).binding? name

omit [DecidableEq K] in
/-- Keeping a handle changes the handles, and then what nothing refers to is let go of. -/
theorem Tied.settle (h : s.Tied) (tag : T) (slot : Option String) {found : Option Nat}
    (hfound : ∀ n, found = some n → s.alive.contains n = true) :
    ∃ handles, ({ s with handles } : Session K V T).Tied ∧
      s.settle tag slot found = ({ s with handles } : Session K V T).collect := by
  unfold Session.settle
  split
  · rename_i slot n
    refine ⟨_, h.names (fun _ _ hbound => hbound) fun slot' n' hslot => ?_, rfl⟩
    rw [Table.get?_insert] at hslot
    split at hslot
    · exact hfound n' hslot
    · exact h.handled slot' n' hslot
  · exact ⟨s.handles, h, rfl⟩

/-- What a single thread does with a registry and the caches that it gets. -/
inductive Call (K : Type u) (V : Type v) (T : Type w) where
  | get (tag : T) (name : String) (slot : Option String)
  | acquire (tag : T) (name : String) (recipe : Recipe K V) (slot : Option String)
  /-- Builds a cache without registering it. -/
  | build (tag : T) (name : String) (config : CacheConfig) (slot : Option String)
  | remove (name : String)
  | clear
  | setDefaultDirectory (directory : String)
  | dropRegistry
  /-- Uses the handle in a slot, while somebody holds the objects listed. -/
  | use (tag : T) (slot : String) (held : List Nat) (op : Cache.Op K V)
  | forget (tag : T) (slot : String)
  | wait (nanos : Nat)

omit [DecidableEq K] [DecidableEq T] in
/-- Goes on with the registry, unless it was dropped. -/
def withRegistry (s : Session K V T) (f : Registry T → Session K V T) : Session K V T :=
  (s.registry.map f).getD s

/-- The session after a call. -/
def step (storage : T → Storage K V) (s : Session K V T) : Call K V T → Session K V T
  | .get tag name slot => s.withRegistry fun r => s.settle tag slot (r.find tag name).toOption.join
  | .acquire tag name recipe slot => s.withRegistry fun r =>
    let out := s.acquire r storage tag name recipe
    out.2.settle tag slot out.1.found.toOption
  | .build tag name config slot => s.withRegistry fun r =>
    let out := s.build r storage tag name config
    out.2.settle tag slot out.1.toOption
  | .remove name => s.withRegistry fun r => (s.remove r name).2
  | .clear => s.clear
  | .setDefaultDirectory directory => s.withRegistry fun r => s.setDefaultDirectory r directory
  | .dropRegistry => s.dropRegistry
  | .use tag slot held op => ((s.handle? tag slot).bind fun n => s.work n held op).getD s
  | .forget tag slot => (s.forget tag slot).2
  | .wait nanos => { s with world := s.world.advance nanos }

def run (storage : T → Storage K V) (s : Session K V T) (calls : List (Call K V T)) : Session K V T :=
  calls.foldl (step storage) s

/-- The names that a call leaves bound to what they were bound to. -/
def Call.Keeps : Call K V T → String → Prop
  | .remove name, name' => name' ≠ name
  | .clear, _ | .dropRegistry, _ => False
  | _, _ => True

/-- A call leads from one session to another: the session stays sound, numbers are not given out again
and the names in `kept` keep their caches. -/
structure Continues (s : Session K V T) (kept : String → Prop) (s' : Session K V T) : Prop where
  sound : s'.Sound
  nextNumber : s.nextNumber ≤ s'.nextNumber
  names : ∀ name entry, kept name → s.binding? name = some entry → s'.binding? name = some entry

namespace Continues

variable {kept : String → Prop}

omit [DecidableEq K] in
theorem refl (h : s.Sound) (kept : String → Prop) : Continues s kept s :=
  ⟨h, Nat.le_refl _, fun _ _ _ hbound => hbound⟩

omit [DecidableEq K] in
/-- Letting go of caches comes last and makes a session sound. -/
theorem collect (htied : s'.Tied) (hnumber : s.nextNumber ≤ s'.nextNumber)
    (hnames : ∀ name entry, kept name → s.binding? name = some entry →
      s'.binding? name = some entry) : Continues s kept s'.collect where
  sound := htied.sound_collect
  nextNumber := s'.drops_collect.nextNumber ▸ hnumber
  names name entry hkept hbound :=
    (s'.drops_collect.binding? name).trans (hnames name entry hkept hbound)

omit [DecidableEq K] in
theorem settle (htied : s'.Tied) (hnumber : s.nextNumber ≤ s'.nextNumber)
    (hnames : ∀ name entry, kept name → s.binding? name = some entry →
      s'.binding? name = some entry) (tag : T) (slot : Option String) {found : Option Nat}
    (hfound : ∀ n, found = some n → s'.alive.contains n = true) :
    Continues s kept (s'.settle tag slot found) := by
  obtain ⟨handles, hhandles, hsettle⟩ := htied.settle tag slot hfound
  rw [hsettle]
  exact .collect hhandles hnumber hnames

omit [DecidableEq K] in
theorem withRegistry {f : Registry T → Session K V T} (h : s.Sound)
    (hf : ∀ r, s.registry = some r → Continues s kept (f r)) : Continues s kept (s.withRegistry f) := by
  unfold Session.withRegistry
  cases hr : s.registry with
  | none => exact .refl h kept
  | some r => exact hf r hr

end Continues

theorem continues_acquire (h : s.Sound) (hr : s.registry = some r) (storage : T → Storage K V) (tag : T)
    (name : String) (recipe : Recipe K V) (slot : Option String) (kept : String → Prop) :
    let out := s.acquire r storage tag name recipe
    Continues s kept (out.2.settle tag slot out.1.found.toOption) := by
  obtain ⟨htied, hfound⟩ := h.toTied.acquire hr storage tag name recipe
  have hasks := s.acquire_asks r storage tag name recipe
  generalize recipe.factory? r storage tag name = f? at hasks
  generalize s.acquire r storage tag name recipe = out at htied hfound hasks ⊢
  have hsettled (hnumber : s.nextNumber ≤ out.2.nextNumber)
      (hnames : ∀ name' entry, s.binding? name' = some entry → out.2.binding? name' = some entry) :
      Continues s kept (out.2.settle tag slot out.1.found.toOption) := by
    exact .settle htied hnumber (fun name' entry _ => hnames name' entry) tag slot
      fun n hn => hfound n (eq_ok_of_toOption hn)
  cases hasks with
  | making habsent hmake =>
    refine hsettled (Nat.le_succ _) fun name' entry hbound => ?_
    have hother : name' ≠ name := by
      rintro rfl
      cases (habsent.symm.trans (binding?_of_registry hr name').symm).trans hbound
    exact (binding?_enrolled hr name' ..).trans ((if_neg hother).trans hbound)
  | _ => exact hsettled (Nat.le_refl _) fun _ _ hbound => hbound

theorem continues_buildWith (h : s.Sound) (f : Factory K V) (tag : T) (slot : Option String)
    (kept : String → Prop) :
    Continues s kept ((s.buildWith f.run).2.settle tag slot (s.buildWith f.run).1.toOption) := by
  cases hmake : f.run s.world with
  | mk made w =>
    cases made with
    | error e =>
      rw [buildWith_of_failing hmake]
      refine .settle (s := s) (h.toTied.world (Factory.grows_of_run hmake)) (Nat.le_refl _)
        (fun _ _ _ hbound => hbound) tag slot fun n hn => ?_
      cases hn
    | ok c =>
      rw [buildWith_of_making hmake]
      refine .settle (s := s) (h.toTied.adopt (Factory.founded_of_run hmake)) (Nat.le_succ _)
        (fun _ _ _ hbound => hbound) tag slot fun n hn => ?_
      obtain rfl := Option.some.inj hn
      exact contains_adopt { s with world := w } c

theorem continues_remove (h : s.Sound) (hr : s.registry = some r) (name : String) :
    Continues s (· ≠ name) (s.remove r name).2 := by
  cases hbound : r.caches.get? name with
  | none =>
    rw [remove_of_absent hbound]
    exact .refl h _
  | some entry =>
    obtain ⟨-, hsound, hforgets⟩ := h.forgets_remove hr hbound
    exact ⟨hsound, (Nat.le_of_eq hforgets.nextNumber.symm), fun name' entry' hkept hbound' =>
      (hforgets.others name' hkept).trans hbound'⟩

omit [DecidableEq T] in
theorem work_of_alive {n : Nat} {c : Cache K V} (hget : s.alive.get? n = some c) (held : List Nat)
    (op : Cache.Op K V) : ∃ w, w.area = s.world.area ∧ s.work n held op =
      some { s with alive := s.alive.insert n (c.perform w op), world := c.worldAfter w op } := by
  refine ⟨{ s.world with held := held ++ s.heldElsewhere n }, rfl, ?_⟩
  unfold work Session.on
  rw [hget]
  rfl

omit [DecidableEq T] in
theorem performs_of_work {n : Nat} {held : List Nat} {op : Cache.Op K V}
    (hwork : s.work n held op = some s') : ∃ c w, s.alive.get? n = some c ∧ w.area = s.world.area ∧
      s' = { s with alive := s.alive.insert n (c.perform w op), world := c.worldAfter w op } := by
  cases hget : s.alive.get? n with
  | none =>
    unfold work Session.on at hwork
    rw [hget] at hwork
    cases hwork
  | some c =>
    obtain ⟨w, hw, hworks⟩ := work_of_alive hget held op
    exact ⟨c, w, rfl, hw, Option.some.inj (hwork.symm.trans hworks)⟩

theorem continues_work (h : s.Sound) {n : Nat} {held : List Nat} {op : Cache.Op K V}
    (hwork : s.work n held op = some s') (kept : String → Prop) : Continues s kept s' := by
  obtain ⟨c, w, hget, hw, rfl⟩ := performs_of_work hwork
  refine ⟨⟨h.toTied.on hget hw (c.uses_perform w op), fun m hm => ?_⟩, Nat.le_refl _,
    fun _ _ _ hbound => hbound⟩
  rw [Table.contains_insert_of_contains (Table.contains_of_get? hget)] at hm
  exact h.referred m hm

theorem Sound.continues_step (h : s.Sound) (storage : T → Storage K V) (call : Call K V T) :
    Continues s call.Keeps (s.step storage call) := by
  cases call with
  | get tag name slot =>
    refine .withRegistry h fun r hr => .settle h.toTied (Nat.le_refl _) (fun _ _ _ hbound => hbound) tag
      slot fun n hn => ?_
    obtain ⟨entry, hbound, rfl⟩ := Registry.bound_of_find hn
    exact h.known name entry ((binding?_of_registry hr name).trans hbound)
  | acquire tag name recipe slot =>
    exact .withRegistry h fun r hr => continues_acquire h hr storage tag name recipe slot _
  | build tag name config slot =>
    refine .withRegistry h fun r _ => ?_
    rw [build_eq]
    exact continues_buildWith h _ tag slot _
  | remove name => exact .withRegistry h fun r hr => continues_remove h hr name
  | clear =>
    obtain ⟨hsound, hforgets⟩ := h.forgets_clear
    exact ⟨hsound, Nat.le_of_eq hforgets.nextNumber.symm, fun _ _ hkept => hkept.elim⟩
  | setDefaultDirectory directory =>
    refine .withRegistry h fun r hr => ?_
    have hnames (name : String) :
        (s.setDefaultDirectory r directory).binding? name = s.binding? name :=
      (binding?_of_registry hr name).symm
    have htied : (s.setDefaultDirectory r directory).Tied :=
      h.toTied.names (fun name entry hbound => (hnames name).symm.trans hbound) h.handled
    refine ⟨⟨htied, fun n hn => (refersTo_congr hnames rfl n).trans (h.referred n hn)⟩, Nat.le_refl _,
      fun name entry _ hbound => (hnames name).trans hbound⟩
  | dropRegistry =>
    obtain ⟨hsound, hforgets⟩ := h.forgets_clear
    exact .collect (hsound.toTied.names (fun _ _ hbound => nomatch hbound) hsound.handled)
      (Nat.le_of_eq hforgets.nextNumber.symm) fun _ _ hkept => hkept.elim
  | use tag slot held op =>
    show Continues s _ (((s.handle? tag slot).bind fun n => s.work n held op).getD s)
    cases hworked : (s.handle? tag slot).bind fun n => s.work n held op with
    | none => exact .refl h _
    | some s' =>
      obtain ⟨n, -, hwork⟩ := Option.bind_eq_some_iff.1 hworked
      exact continues_work h hwork _
  | forget tag slot =>
    refine .collect (h.toTied.names (fun _ _ hbound => hbound) fun slot' n hslot => ?_) (Nat.le_refl _)
      fun _ _ _ hbound => hbound
    rw [Table.get?_erase] at hslot
    split at hslot
    · cases hslot
    · exact h.handled slot' n hslot
  | wait nanos =>
    have htied : ({ s with world := s.world.advance nanos } : Session K V T).Tied :=
      h.toTied.world (.refl s.world.area)
    exact ⟨⟨htied, h.referred⟩, Nat.le_refl _, fun _ _ _ hbound => hbound⟩

theorem Sound.continues_run (h : s.Sound) (storage : T → Storage K V) (calls : List (Call K V T)) :
    Continues s (fun name => ∀ call ∈ calls, call.Keeps name) (s.run storage calls) := by
  induction calls generalizing s with
  | nil => exact .refl h _
  | cons call calls ih =>
    have hfirst := h.continues_step storage call
    have hrest := ih hfirst.sound
    refine ⟨hrest.sound, Nat.le_trans hfirst.nextNumber hrest.nextNumber,
      fun name entry hkept hbound => ?_⟩
    obtain ⟨hcall, hcalls⟩ := List.forall_mem_cons.1 hkept
    exact hrest.names name entry hcalls (hfirst.names name entry hcall hbound)

omit [DecidableEq K] in
theorem sound_start {r : Registry T} (hr : r.caches = .empty) (w : World) :
    (start r w : Session K V T).Sound := by
  have hunbound (name : String) : (start r w : Session K V T).binding? name = none := by
    rw [binding?_of_registry rfl, hr, Table.get?_empty]
  have hdead (n : Nat) : (start r w : Session K V T).alive.get? n = none := rfl
  have hnone (n : Nat) : (start r w : Session K V T).alive.contains n ≠ true := nofun
  refine ⟨⟨fun name entry hbound => ?_, fun name _ entry _ hbound => ?_, fun slot n hslot => ?_,
    fun n hn => (hnone n hn).elim, fun n c _ hget => ?_, fun n _ c _ _ hget => ?_⟩,
    fun n hn => (hnone n hn).elim⟩
  · cases (hunbound name).symm.trans hbound
  · cases (hunbound name).symm.trans hbound
  · cases (Table.get?_empty slot).symm.trans hslot
  · cases (hdead n).symm.trans hget
  · cases (hdead n).symm.trans hget

end Session

end CacheLayer
