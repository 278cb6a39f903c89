import CacheLayer.Proofs.Registry.Calls

/-!
# The contract of a registry

A registry is a state machine whose states are sessions. Whatever calls led to a session:

* a name is bound to at most one cache, and keeps it until it is removed, whatever it is asked for with;
* something is made exactly where a cache is asked for by a name that is not bound, and has been declared
  if it has to be;
* what fails registers nothing and leaves all caches as they were;
* removing a name closes its cache and no other, and what is made under the name afterwards is another
  cache, with nothing in it.

`Session.Contract` says so of one session, and `Session.contract_run` proves it of every session that is
reached.
-/

namespace CacheLayer

variable {K : Type u} {V : Type v} {T : Type w} [DecidableEq T]

/-- The registry that a thread starts from: of a configuration, or of none. -/
def Registry.opened (config : Option RegistryConfig) : Registry T := config.elim .empty .ofConfig

omit [DecidableEq T] in
theorem Registry.caches_opened (config : Option RegistryConfig) :
    (opened config : Registry T).caches = .empty := by
  cases config <;> rfl

namespace Session

/-- Whoever asks for the name gets its cache if the types are right, and a mismatch otherwise; nothing is
made, and the session stays as it is. -/
structure Answers (storage : T → Storage K V) (name : String) (entry : Registration T)
    (s : Session K V T) : Prop where
  bound : s.binding? name = some entry
  find : ∀ r tag, s.registry = some r → r.find tag name = (entry.answer tag name).map some
  acquire : ∀ r tag recipe f, s.registry = some r → recipe.factory? r storage tag name = some f →
    s.acquire r storage tag name recipe = (⟨entry.answer tag name, false⟩, s)

variable [DecidableEq K]

/-- No name, no handle and no cache is another than before. -/
structure Unchanged (s s' : Session K V T) : Prop where
  registry : s'.registry = s.registry
  alive : s'.alive = s.alive
  handles : s'.handles = s.handles
  nextNumber : s'.nextNumber = s.nextNumber
  untouched : ∀ n, Untouched s s' n

/-- The cache was made, is empty, and has the next number and the name; all else is as before. -/
structure Created (s : Session K V T) (tag : T) (name : String) (c : Cache K V) (s' : Session K V T) :
    Prop where
  bound : s'.binding? name = some ⟨s.nextNumber, tag, c.cacheType⟩
  others : ∀ name', name' ≠ name → s'.binding? name' = s.binding? name'
  handles : s'.handles = s.handles
  new : s.alive.contains s.nextNumber = false
  alive : s'.alive.get? s.nextNumber = some c
  empty : ∀ w k, c.store.backend.shows w k = (false, none)
  untouched : ∀ n, n ≠ s.nextNumber → Untouched s s' n

/-- What asking for caches, removing them and using them comes to in one session. -/
structure Contract (storage : T → Storage K V) (s : Session K V T) : Prop where
  known : ∀ name entry, s.binding? name = some entry → s.alive.contains entry.number = true
  apart : ∀ name name' entry entry', s.binding? name = some entry →
    s.binding? name' = some entry' → entry.number = entry'.number → name = name'
  /-- Short of removing a name, nothing keeps it from answering with its cache. -/
  lasting : ∀ name entry calls, s.binding? name = some entry →
    (∀ call ∈ calls, call.Keeps name) → (s.run storage calls).Answers storage name entry
  absent : ∀ r tag name, s.registry = some r → s.binding? name = none → r.find tag name = .ok none
  /-- Without a configuration to make a cache from, nothing is made, whether the name is bound or not. -/
  undeclared : ∀ r tag name recipe, s.registry = some r →
    recipe.factory? r storage tag name = none →
      s.acquire r storage tag name recipe = (⟨.error (.unknownCache name), false⟩, s)
  /-- The factory of a name that is not bound runs. If it fails, nothing is registered; -/
  failing : ∀ r tag name recipe f e w, s.registry = some r → s.binding? name = none →
    recipe.factory? r storage tag name = some f → f.run s.world = (.error e, w) →
      let out := s.acquire r storage tag name recipe
      out.1 = ⟨.error e, true⟩ ∧ Unchanged s out.2
  /-- if it makes a cache, the name is bound to that. -/
  creating : ∀ r tag name recipe f c w, s.registry = some r → s.binding? name = none →
    recipe.factory? r storage tag name = some f → f.run s.world = (.ok c, w) →
      let out := s.acquire r storage tag name recipe
      out.1 = ⟨.ok s.nextNumber, true⟩ ∧ Created s tag name c out.2
  /-- A call that finds no cache ends with that, wherever the cache was to be kept. -/
  ended : ∀ r tag name recipe slot e, s.registry = some r →
    (s.acquire r storage tag name recipe).1.found = .error e →
      s.step storage (.acquire tag name recipe slot) = (s.acquire r storage tag name recipe).2
  /-- A cache that is made later is another than those that are alive now. -/
  later : ∀ n calls, s.alive.contains n = true → n < (s.run storage calls).nextNumber
  removingAbsent : ∀ r name, s.registry = some r → s.binding? name = none →
    s.remove r name = (false, s)
  removing : ∀ r name entry, s.registry = some r → s.binding? name = some entry →
    (s.remove r name).1 = true ∧ Forgets s (· = name) (s.remove r name).2
  clearing : Forgets s (fun _ => True) s.clear
  /-- Using a cache leaves the names, the handles and all other caches as they are. -/
  working : ∀ n held op s', s.work n held op = some s' →
    s'.registry = s.registry ∧ s'.handles = s.handles ∧ ∀ m, m ≠ n → Untouched s s' m

namespace Sound

variable {s : Session K V T} {storage : T → Storage K V} {r : Registry T} {name : String}

omit [DecidableEq K] in
theorem answers {entry : Registration T} (hbound : s.binding? name = some entry) :
    s.Answers storage name entry := by
  refine ⟨hbound, fun r tag hr => ?_, fun r tag recipe f hr hf => ?_⟩
  · exact Registry.find_of_bound ((binding?_of_registry hr name).symm.trans hbound) tag
  · rw [acquire_eq, hf]
    exact getOrCreateWith_of_bound ((binding?_of_registry hr name).symm.trans hbound)

theorem created (h : s.Sound) (hr : s.registry = some r) (tag : T) {c : Cache K V} {w : World}
    (hc : c.store.backend.Founded s.world.area w.area) :
    Created s tag name c (s.enrolled r tag name c w) := by
  have hnames (name' : String) : (s.enrolled r tag name c w).binding? name' =
      if name' = name then some ⟨s.nextNumber, tag, c.cacheType⟩ else s.binding? name' := by
    rw [binding?_of_registry hr]
    exact Table.get?_insert ..
  refine ⟨(hnames name).trans (if_pos rfl), fun name' hother => (hnames name').trans (if_neg hother),
    rfl, ?_, ?_, hc.bare.shows, fun n hn => ?_⟩
  · exact Bool.eq_false_iff.2 fun halive => Nat.lt_irrefl _ (h.fresh _ halive)
  · exact (Table.get?_insert ..).trans (if_pos rfl)
  · refine .of_files ((Table.get?_insert ..).trans (if_neg hn)) fun c' tier hget htier => ?_
    exact hc.grows.tiers tier (h.located n c' tier hget htier)

theorem contract (h : s.Sound) (storage : T → Storage K V) : s.Contract storage where
  known := h.known
  apart := h.apart
  lasting name entry calls hbound hkept :=
    answers ((h.continues_run storage calls).names name entry hkept hbound)
  absent r tag name hr hbound :=
    Registry.find_of_absent ((binding?_of_registry hr name).symm.trans hbound) tag
  undeclared r tag name recipe _ hf := by rw [acquire_eq, hf]
  failing r tag name recipe f e w hr hbound hf hrun := by
    have habsent := (binding?_of_registry hr name).symm.trans hbound
    have hgrows := Factory.grows_of_run hrun
    rw [acquire_eq, hf]
    dsimp only
    rw [getOrCreateWith_of_failing habsent hrun]
    exact ⟨rfl, rfl, rfl, rfl, rfl, .world h.toTied hgrows⟩
  creating r tag name recipe f c w hr hbound hf hrun := by
    have habsent := (binding?_of_registry hr name).symm.trans hbound
    rw [acquire_eq, hf]
    dsimp only
    rw [getOrCreateWith_of_making habsent hrun]
    exact ⟨rfl, h.created hr tag (Factory.founded_of_run hrun)⟩
  ended r tag name recipe slot e hr he := by
    show s.withRegistry _ = _
    rw [withRegistry, hr]
    show settle _ tag slot (s.acquire r storage tag name recipe).1.found.toOption = _
    rw [he]
    have hsettle (s' : Session K V T) : s'.settle tag slot none = s'.collect := by
      cases slot <;> rfl
    exact (hsettle _).trans (h.acquire_of_error hr storage tag name recipe he).collect_eq
  later n calls hn := Nat.lt_of_lt_of_le (h.fresh n hn) (h.continues_run storage calls).nextNumber
  removingAbsent r name hr hbound :=
    remove_of_absent ((binding?_of_registry hr name).symm.trans hbound)
  removing r name entry hr hbound := by
    obtain ⟨hremoved, -, hforgets⟩ :=
      h.forgets_remove hr ((binding?_of_registry hr name).symm.trans hbound)
    exact ⟨hremoved, hforgets⟩
  clearing := h.forgets_clear.2
  working n held op s' hwork := by
    obtain ⟨c, w, hget, hw, rfl⟩ := performs_of_work hwork
    exact ⟨rfl, rfl, fun m hm => .on h.toTied hget hw (c.uses_perform w op) hm⟩

end Sound

/-- Whatever calls a thread makes, the contract holds of every session that it reaches: names keep their
caches until they are removed, something is made only for a name that is not bound, and neither what
fails nor what is removed touches another cache. -/
theorem contract_run (storage : T → Storage K V) (config : Option RegistryConfig) (w : World)
    (calls : List (Call K V T)) :
    ((start (Registry.opened config) w).run storage calls).Contract storage := by
  have hstart : (start (Registry.opened config) w : Session K V T).Sound :=
    sound_start (Registry.caches_opened config) w
  exact (hstart.continues_run storage calls).sound.contract storage

/-- A cache that somebody keeps outlives its name; what is made under the name then is another cache. -/
example :
    let calls : List (Call Nat UInt8 Bool) :=
      [.acquire true "a" (.plain { kind := .volatile }) (some "kept"), .remove "a",
        .acquire false "a" (.plain { kind := .volatile }) none]
    let s := (start (Registry.opened none) bareWorld).run (fun _ => byteStorage) calls
    s.binding? "a" = some ⟨1, false, .volatile⟩ ∧ s.handle? true "kept" = some 0 ∧
      s.alive.keys = [1, 0] := by
  decide

end Session

end CacheLayer
