import CacheLayer.Proofs.LookAgain
import CacheLayer.Proofs.ProviderCalls

/-!
# Populating a cache

What a cache under one populating layer does, whatever stores the values, however misses are dealt
with, and whatever the provider answers. The cache below may change when it misses a key, and a layer
that looks twice misses the key twice; but the second miss changes nothing more than counters.

* `Cache.Reached` : the states that a populated cache can reach.
* `Cache.Populates`, `Cache.Loads` : what a look-up and a refresh come to.
* `Cache.successive` : look-ups of one key after the other, and `getAll_eq_successive` : looking up a
  list of keys is that, up to the first error.
* `Cache.reached_contract` : all three hold in every state.
-/

namespace CacheLayer

variable {K : Type u} {V : Type v} [DecidableEq K]

/-! ## States -/

theorem Store.orderly_populate {s : Store K V} (h : s.backend.Orderly) (layer : Layer K V)
    (own : Nat) (w : World) (k : K) : (s.populate layer own w k).state.backend.Orderly := by
  unfold Store.populate
  dsimp only
  split
  · exact h.insert _ k _
  · exact h

theorem Store.orderly_get (layers : List (Layer K V)) {s : Store K V} (h : s.backend.Orderly)
    (w : World) (k : K) : (s.get w k layers).state.backend.Orderly := by
  induction layers generalizing s w with
  | nil => exact h.get w k
  | cons layer below ih =>
    have hdescends := Store.get_descends layer below w k s
    generalize s.get w k (layer :: below) = out at hdescends ⊢
    cases hdescends with
    | found hfound => exact ih h w
    | asked hmode hmissed => exact Store.orderly_populate (ih h w) layer _ _ k
    | foundAgain hmode hmissed hfound => exact ih (ih h w) _
    | askedAgain hmode hmissed hagain => exact Store.orderly_populate (ih (ih h w) _) layer _ _ k

namespace Cache

inductive Op (K : Type u) (V : Type v) where
  | insert (k : K) (value : Shared V)
  | put (k : K) (v : Option V)
  | putAll (entries : List (K × Option V))
  | remove (k : K)
  | get (k : K)
  | getAll (ks : List K)
  | refresh (level : Nat) (k : K)
  | keys
  | size
  | close
  | purgeExpired
  /-- Somebody else works on the heap of a cache with soft values. -/
  | heap (op : SoftHeap.Op K)

def perform (c : Cache K V) (w : World) : Op K V → Cache K V
  | .insert k value => (c.insert w k value).state
  | .put k v => (c.put w k v).state
  | .putAll entries => (c.putAll w entries).state
  | .remove k => (c.remove w k).state
  | .get k => (c.get w k).state
  | .getAll ks => (c.getAll w ks).state
  | .refresh level k => ((c.refresh? level w k).map Step.state).getD c
  | .keys => (c.keys w).state
  | .size => (c.size w).state
  | .close => (c.close w).state
  | .purgeExpired =>
    let backend := (c.store.backend.purgeExpired w).map Step.state
    { c with store := { c.store with backend := backend.getD c.store.backend } }
  | .heap op =>
    match c.store.backend with
    | .soft s => { c with store := { c.store with backend := .soft { s with heap := s.heap.apply op } } }
    | _ => c

/-- The states that a cache under one layer can reach. What lies around it may change each time. -/
inductive Reached (layer : Layer K V) : Cache K V → Prop
  | built {b : Builder} {st : Storage K V} {w w' : World} {kind : CacheKind} {backend : Backend K V}
    (hbuilt : b.buildKind st w kind = (.ok backend, w')) :
    Reached layer ((plain backend).populating layer)
  | step {c : Cache K V} (h : Reached layer c) (w : World) (op : Op K V) :
    Reached layer (c.perform w op)

/-- The cache has one layer, and what stores its values is in order. -/
structure Under (layer : Layer K V) (c : Cache K V) : Prop where
  layers : c.layers = [layer]
  orderly : c.store.backend.Orderly

variable {layer : Layer K V}

theorem Under.put {c : Cache K V} (h : c.Under layer) (w : World) (k : K) (v : Option V) :
    (c.put w k v).state.Under layer := by
  cases v with
  | none => exact ⟨h.layers, h.orderly.remove w k⟩
  | some v => exact ⟨h.layers, h.orderly.insert _ k _⟩

theorem Under.putAll (entries : List (K × Option V)) {c : Cache K V} (h : c.Under layer)
    (w : World) : (c.putAll w entries).state.Under layer := by
  induction entries generalizing c w with
  | nil => exact h
  | cons entry rest ih => exact ih (h.put w entry.1 entry.2) _

theorem Under.get {c : Cache K V} (h : c.Under layer) (w : World) (k : K) :
    (c.get w k).state.Under layer := ⟨h.layers, Store.orderly_get c.layers h.orderly w k⟩

theorem Under.getAll (ks : List K) {c : Cache K V} (h : c.Under layer) (w : World) :
    (c.getAll w ks).state.Under layer := by
  induction ks generalizing c w with
  | nil => exact h
  | cons k ks ih =>
    rw [Cache.getAll]
    unfold Step.bind
    dsimp only
    split
    · exact h.get w k
    · exact ih (h.get w k) _

theorem Under.refresh {c : Cache K V} (h : c.Under layer) (w : World) (level : Nat) (k : K) :
    (((c.refresh? level w k).map Step.state).getD c).Under layer := by
  unfold Cache.refresh?
  split
  · exact h
  · exact ⟨h.layers, Store.orderly_populate h.orderly _ _ w k⟩

theorem Under.perform {c : Cache K V} (h : c.Under layer) (w : World) (op : Op K V) :
    (c.perform w op).Under layer := by
  cases op with
  | insert k value => exact ⟨h.layers, h.orderly.insert w k value⟩
  | put k v => exact h.put w k v
  | putAll entries => exact h.putAll entries w
  | remove k => exact ⟨h.layers, h.orderly.remove w k⟩
  | get k => exact h.get w k
  | getAll ks => exact h.getAll ks w
  | refresh level k => exact h.refresh w level k
  | keys => exact ⟨h.layers, h.orderly.keys w⟩
  | size => exact ⟨h.layers, h.orderly.size w⟩
  | close => exact ⟨h.layers, Backend.orderly_close _ w⟩
  | purgeExpired =>
    refine ⟨h.layers, ?_⟩
    show (((c.store.backend.purgeExpired w).map Step.state).getD c.store.backend).Orderly
    cases hpurge : c.store.backend.purgeExpired w with
    | none => exact h.orderly
    | some s => exact h.orderly.purgeExpired hpurge
  | heap op =>
    unfold Cache.perform
    dsimp only
    split
    · exact ⟨h.layers, trivial⟩
    · exact h

theorem Reached.under {c : Cache K V} (h : c.Reached layer) : c.Under layer := by
  induction h with
  | built hbuilt => exact ⟨rfl, Backend.orderly_buildKind hbuilt⟩
  | step _ w op ih => exact ih.perform w op

/-! ## Looking up and refreshing -/

/-- The cache after its values became those of `backend`, and its provider was asked for `k`. -/
def asking (c : Cache K V) (backend : Backend K V) (k : K) : Cache K V :=
  { c with store := ⟨backend, c.store.calls ++ [(0, k)]⟩ }

/-- What asking the provider for `k` has to come to, once, where `backend` stores the values. -/
structure Loads (layer : Layer K V) (c : Cache K V) (backend : Backend K V) (w : World) (k : K)
    (out : Step (Cache K V) (Note K V) (Found V)) : Prop where
  /-- The value is stored, and the very object is given. -/
  loaded : ∀ v, layer.provider.provide (c.store.asked 0) k = .ok v →
    let stored := backend.insert { w with nextId := w.nextId + 1 } k ⟨w.nextId, v⟩
    out = ⟨.ok (some ⟨w.nextId, v⟩), c.asking stored.state k, stored.world,
      .call 0 k :: stored.log.map .eviction⟩
  /-- A failure that is tolerated is a miss, and another an error. Nothing is stored. -/
  failed : ∀ e, layer.provider.provide (c.store.asked 0) k = .error e →
    out = ⟨if layer.failurePolicy.tolerates e then .ok none else .error (.provider e),
      c.asking backend k, w, [.call 0 k]⟩

/-- What a look-up has to come to; `below` is what the cache below comes to by itself. -/
structure Populates (layer : Layer K V) (c : Cache K V) (k : K)
    (below : Step (Backend K V) (Eviction K V) (Option (Shared V)))
    (out : Step (Cache K V) (Note K V) (Found V)) : Prop where
  /-- A value that is held is given, and nobody is asked. -/
  held : ∀ value, below.answer = some value →
    out = ⟨.ok (some value), { c with store := { c.store with backend := below.state } },
      below.world, below.log.map .eviction⟩
  /-- Otherwise the provider is asked, where the cache below is what its own look-up made of it, up
  to its counters. -/
  missed : below.answer = none → ∃ (backend : Backend K V) (asked : Step _ _ (Found V)),
    backend.uncounted = below.state.uncounted ∧ Loads layer c backend below.world k asked ∧
      out = { asked with log := below.log.map .eviction ++ asked.log }

theorem loads_populate (layer : Layer K V) (c : Cache K V) (backend : Backend K V) (w : World)
    (k : K) : Loads layer c backend w k
      ((Store.populate { c.store with backend } layer 0 w k).mapState fun store =>
        { c with store }) where
  loaded v hprovide := by
    have hprovide : layer.provider.provide (Store.asked { c.store with backend } 0) k = .ok v :=
      hprovide
    unfold Store.populate
    simp only [hprovide]
    rfl
  failed e hprovide := by
    have hprovide : layer.provider.provide (Store.asked { c.store with backend } 0) k = .error e :=
      hprovide
    unfold Store.populate
    simp only [hprovide]
    rfl

theorem Under.refreshes {c : Cache K V} (h : c.Under layer) (w : World) (k : K) :
    ∃ out, c.refresh? 0 w k = some out ∧ Loads layer c c.store.backend w k out := by
  obtain ⟨store, layers⟩ := c
  obtain rfl : layers = [layer] := h.layers
  exact ⟨_, rfl, loads_populate layer ⟨store, [layer]⟩ store.backend w k⟩

theorem get_backend (s : Store K V) (w : World) (k : K) : s.get w k [] =
    ⟨.ok (s.backend.get w k).answer, { s with backend := (s.backend.get w k).state },
      (s.backend.get w k).world, (s.backend.get w k).log.map .eviction⟩ := rfl

theorem Under.populates {c : Cache K V} (h : c.Under layer) (w : World) (k : K) :
    Populates layer c k (c.store.backend.get w k) (c.get w k) := by
  have hdescends := Store.get_descends layer [] w k c.store
  have hget : c.get w k = (c.store.get w k [layer]).mapState fun store => { c with store } := by
    unfold Cache.get onStore
    rw [h.layers]
  rw [hget]
  generalize c.store.get w k [layer] = out at hdescends
  constructor
  · intro value hvalue
    have hheld : (c.store.get w k []).answer ≠ .ok none := by
      rw [get_backend, hvalue]
      exact nofun
    cases hdescends with
    | found hfound =>
      rw [get_backend, hvalue]
      rfl
    | asked hmode hmissed => exact absurd hmissed hheld
    | foundAgain hmode hmissed hfound => exact absurd hmissed hheld
    | askedAgain hmode hmissed hagain => exact absurd hmissed hheld
  · intro hnone
    -- a second look after a miss misses again, and changes nothing but the count of misses
    have hsecond := h.orderly.get_again hnone
    have hcounters := (c.store.backend.get w k).state.uncounted_missed 1
    generalize (c.store.backend.get w k).state.missed 1 = again at hsecond hcounters
    have hstore : Store.get (c.store.backend.get w k).world k []
        { c.store with backend := (c.store.backend.get w k).state } =
        ⟨.ok none, { c.store with backend := again }, (c.store.backend.get w k).world, []⟩ := by
      rw [get_backend]
      simp only [hsecond]
      rfl
    cases hdescends with
    | found hfound =>
      rw [get_backend, hnone] at hfound
      exact absurd rfl hfound
    | asked hmode hmissed => exact ⟨_, _, rfl, loads_populate layer c _ _ k, rfl⟩
    | foundAgain hmode hmissed hfound =>
      exact absurd (congrArg Step.answer hstore) hfound
    | askedAgain hmode hmissed hagain =>
      refine ⟨again, _, hcounters, loads_populate layer c again _ k, ?_⟩
      rw [get_backend]
      unfold Step.bind
      simp only [hstore]
      rfl

/-! ## Looking up a list of keys -/

def holding (w : World) : Found V → World
  | .ok (some value) => w.hold value.id
  | _ => w

/-- Looks up each key of a list in turn, whatever comes of it; values found are held on to. -/
def successive (c : Cache K V) (w : World) :
    List K → Step (Cache K V) (Note K V) (List (Found V))
  | [] => .pure [] c w
  | k :: ks => (c.get w k).bind fun found c w =>
    (c.successive (holding w found) ks).mapAnswer (found :: ·)

/-- What the look-ups found, or the first error. -/
def collected : List (Found V) → Except CacheError (List (Option (Shared V)))
  | [] => .ok []
  | .error e :: _ => .error e
  | .ok value :: answers => (collected answers).map (value :: ·)

/-- How many look-ups there are up to the first error, and with it. -/
def untilError (answers : List (Found V)) : Nat :=
  answers.findIdx (fun found => !found.isOk) + 1

theorem untilError_ok (value : Option (Shared V)) (answers : List (Found V)) :
    untilError (.ok value :: answers) = untilError answers + 1 := by
  unfold untilError
  rw [List.findIdx_cons]
  rfl

theorem successive_cons (c : Cache K V) (w : World) (k : K) (ks : List K) :
    let first := c.get w k
    let rest := first.state.successive (holding first.world first.answer) ks
    c.successive w (k :: ks) =
      ⟨first.answer :: rest.answer, rest.state, rest.world, first.log ++ rest.log⟩ := rfl

theorem successive_single (c : Cache K V) (w : World) (k : K) : c.successive w [k] =
    ⟨[(c.get w k).answer], (c.get w k).state, holding (c.get w k).world (c.get w k).answer,
      (c.get w k).log⟩ := by
  rw [successive_cons]
  exact congrArg (Step.mk _ _ _) (List.append_nil _)

theorem getAll_of_error {c : Cache K V} {w : World} {k : K} {e : CacheError}
    (h : (c.get w k).answer = .error e) (ks : List K) : c.getAll w (k :: ks) =
      ⟨.error e, (c.get w k).state, (c.get w k).world, (c.get w k).log⟩ := by
  rw [getAll, Step.bind]
  simp only [h]
  exact congrArg (Step.mk _ _ _) (List.append_nil _)

theorem getAll_of_found {c : Cache K V} {w : World} {k : K} {value : Option (Shared V)}
    (h : (c.get w k).answer = .ok value) (ks : List K) :
    let rest := (c.get w k).state.getAll (holding (c.get w k).world (.ok value)) ks
    c.getAll w (k :: ks) = ⟨rest.answer.map (value :: ·), rest.state,
      { rest.world with held := (c.get w k).world.held }, (c.get w k).log ++ rest.log⟩ := by
  rw [getAll, Step.bind]
  cases value <;> simp only [h] <;> rfl

theorem getAll_eq_successive (c : Cache K V) (w : World) (ks : List K) :
    let answers := (c.successive w ks).answer
    let made := c.successive w (ks.take (untilError answers))
    ∃ held, c.getAll w ks =
      ⟨collected answers, made.state, { made.world with held }, made.log⟩ := by
  induction ks generalizing c w with
  | nil => exact ⟨w.held, rfl⟩
  | cons k ks ih =>
    refine ⟨(c.get w k).world.held, ?_⟩
    cases hfound : (c.get w k).answer with
    | error e =>
      have htake (answers : List (Found V)) :
          (k :: ks).take (untilError (.error e :: answers)) = [k] := rfl
      rw [getAll_of_error hfound, successive_cons, hfound]
      dsimp only
      rw [htake, successive_single, hfound]
      rfl
    | ok value =>
      obtain ⟨held, hrest⟩ := ih (c.get w k).state (holding (c.get w k).world (.ok value))
      rw [getAll_of_found hfound, hrest, successive_cons, hfound]
      dsimp only
      rw [untilError_ok, List.take_succ_cons, successive_cons, hfound]
      rfl

/-! ## Every state -/

/-- What a cache under one layer does: a look-up, a refresh, and the look-up of a list of keys. -/
structure Contract (layer : Layer K V) (c : Cache K V) (w : World) : Prop where
  get : ∀ k, Populates layer c k (c.store.backend.get w k) (c.get w k)
  refresh : ∀ k, ∃ out, c.refresh? 0 w k = some out ∧ Loads layer c c.store.backend w k out
  /-- One look-up after the other up to the first error, each of which keeps this contract. -/
  getAll : ∀ ks,
    let answers := (c.successive w ks).answer
    let made := c.successive w (ks.take (untilError answers))
    ∃ held, c.getAll w ks =
      ⟨collected answers, made.state, { made.world with held }, made.log⟩

/-- In every state that it can reach, over whatever stores its values, a populated cache keeps its
contract. -/
theorem reached_contract {c : Cache K V} (h : c.Reached layer) (w : World) :
    c.Contract layer w where
  get := h.under.populates w
  refresh := h.under.refreshes w
  getAll := c.getAll_eq_successive w

/-- A layer that looks twice, and whose provider is down for the key 0. -/
def pairLayer : Layer Nat UInt8 :=
  .make ⟨fun _ k => if k = 0 then .error ⟨.unavailable, "down", none⟩ else .ok 7⟩ (.singleFlight 1)
    .tolerateUnavailable

theorem reached_contract_pair :
    Reached pairLayer (((plain (.overflow (pairCache none none))).populating pairLayer).perform
      pairWorld (.get 1)) ∧
    Contract pairLayer (((plain (.overflow (pairCache none none))).populating pairLayer).perform
      pairWorld (.get 1)) pairWorld := by
  have hbuilt : (pairBuilder none none).buildKind byteStorage bareWorld .diskOverflow =
      (.ok (.overflow (pairCache none none)), pairWorld) := by
    unfold Builder.buildKind
    rw [pair_built]
    rfl
  have hstart : Reached pairLayer ((plain _).populating pairLayer) := .built hbuilt
  have hreached := hstart.step pairWorld (.get 1)
  exact ⟨hreached, reached_contract hreached pairWorld⟩

end Cache

end CacheLayer
