import CacheLayer.Backend
import CacheLayer.Provider

/-!
# Caches

A cache is a backend under any number of populating layers. A layer asks its provider for a value
that is missing below it, stores the value below and gives it; `Cache.get` goes down the layers and
`Cache.refresh` asks the outermost provider at once. What an operation logs are evictions and calls
of providers, in order.
-/

namespace CacheLayer

/-- The least power of two that is not less than `n`. -/
def nextPowerOfTwo (n : Nat) : Nat := if n ≤ 1 then 1 else 1 <<< (Nat.log2 (n - 1) + 1)

/-- How misses of one key at the same time are dealt with. -/
inductive FetchMode where
  /-- Each of them asks the provider. -/
  | concurrent
  /-- One at a time asks the provider, under one of so many locks; it looks again before. -/
  | singleFlight (stripes : Nat)
  deriving DecidableEq, Repr

/-- The mode with the number of locks that are made: a power of two. -/
def FetchMode.rounded : FetchMode → FetchMode
  | .concurrent => .concurrent
  | .singleFlight stripes => .singleFlight (nextPowerOfTwo stripes)

def FetchMode.stripes : FetchMode → Nat
  | .concurrent => 0
  | .singleFlight stripes => stripes

def FetchMode.debug : FetchMode → String
  | .concurrent => "Concurrent"
  | .singleFlight stripes => Text.record "SingleFlight" [("stripes", toString stripes)] false

/-- What the failure of a provider becomes. -/
inductive FailurePolicy where
  /-- An error, always. -/
  | propagate
  /-- A miss where the provider is unavailable, an error otherwise. -/
  | tolerateUnavailable
  deriving DecidableEq, Repr

/-- Whether a failure becomes a miss. -/
def FailurePolicy.tolerates : FailurePolicy → ProviderError → Bool
  | .propagate, _ => false
  | .tolerateUnavailable, e => e.kind = .unavailable

def FailurePolicy.debug : FailurePolicy → String
  | .propagate => "Propagate"
  | .tolerateUnavailable => "TolerateUnavailable"

/-- A populating layer. -/
structure Layer (K : Type u) (V : Type v) where
  provider : Provider K V
  fetchMode : FetchMode
  failurePolicy : FailurePolicy

/-- A layer whose locks are made. -/
def Layer.make (provider : Provider K V) (mode : FetchMode) (policy : FailurePolicy) : Layer K V :=
  ⟨provider, mode.rounded, policy⟩

/-- What an operation of a cache logs. -/
inductive Note (K : Type u) (V : Type v) where
  | eviction (e : Eviction K V)
  /-- The provider of the layer of a number, counted from the backend, was asked for a key. -/
  | call (layer : Nat) (key : K)

/-- What lies under the layers: a backend, and the keys that the providers were asked for, each with
the number of its layer, oldest first. -/
structure Store (K : Type u) (V : Type v) where
  backend : Backend K V
  calls : List (Nat × K)

/-- What a look-up gives: a value that may be absent, or an error. -/
abbrev Found (V : Type v) := Except CacheError (Option (Shared V))

namespace Store

variable {K : Type u} {V : Type v}

def onBackend (s : Store K V) (f : Backend K V → Step (Backend K V) (Eviction K V) α) :
    Step (Store K V) (Note K V) α :=
  ((f s.backend).mapState fun backend => { s with backend }).mapLog .eviction

/-- The keys that the provider of a layer was asked for, oldest first. -/
def asked (s : Store K V) (level : Nat) : List K :=
  s.calls.filterMap fun c => if c.1 = level then some c.2 else none

variable [DecidableEq K]

/-- Asks the provider of the layer of a number for `k`, stores what it gives and gives it. -/
def populate (s : Store K V) (layer : Layer K V) (level : Nat) (w : World) (k : K) :
    Step (Store K V) (Note K V) (Found V) :=
  let called := { s with calls := s.calls ++ [(level, k)] }
  match layer.provider.provide (s.asked level) k with
  | .ok v =>
    let (value, w) := w.share v
    let stored := called.onBackend (·.insert w k value)
    ⟨.ok (some value), stored.state, stored.world, .call level k :: stored.log⟩
  | .error e =>
    ⟨if layer.failurePolicy.tolerates e then .ok none else .error (.provider e), called, w,
      [.call level k]⟩

/-- Looks `k` up under `layers`, outermost first: the provider of a layer is asked for what is
missing below it. -/
def get (w : World) (k : K) : List (Layer K V) → Store K V → Step (Store K V) (Note K V) (Found V)
  | [], s => (s.onBackend (·.get w k)).mapAnswer .ok
  | layer :: below, s =>
    (s.get w k below).bind fun found s w =>
      match found, layer.fetchMode with
      | .ok none, .concurrent => s.populate layer below.length w k
      | .ok none, .singleFlight _ =>
        (s.get w k below).bind fun found s w =>
          match found with
          | .ok none => s.populate layer below.length w k
          | found => .pure found s w
      | found, _ => .pure found s w

end Store

/-- A backend under populating layers. -/
structure Cache (K : Type u) (V : Type v) where
  store : Store K V
  /-- The layers, outermost first. -/
  layers : List (Layer K V)

namespace Cache

variable {K : Type u} {V : Type v}

/-- A backend alone. -/
def plain (backend : Backend K V) : Cache K V := ⟨⟨backend, []⟩, []⟩

/-- The cache under one layer more. -/
def populating (layer : Layer K V) (c : Cache K V) : Cache K V :=
  { c with layers := layer :: c.layers }

/-- The layers from the one of a number, counted from the backend, inwards. -/
def layersFrom (c : Cache K V) (level : Nat) : List (Layer K V) :=
  c.layers.drop (c.layers.length - 1 - level)

/-- Applies an operation under the layers. -/
def onStore (c : Cache K V) (f : Store K V → Step (Store K V) (Note K V) α) :
    Step (Cache K V) (Note K V) α :=
  (f c.store).mapState fun store => { c with store }

def onBackend (c : Cache K V) (f : Backend K V → Step (Backend K V) (Eviction K V) α) :
    Step (Cache K V) (Note K V) α :=
  c.onStore (·.onBackend f)

def name (c : Cache K V) : String := c.store.backend.name

/-- The kind of a backend under layers. -/
def typeUnder (backend : Backend K V) (layers : List (Layer K V)) : CacheType :=
  if layers.isEmpty then backend.cacheType else .selfPopulating

def cacheType (c : Cache K V) : CacheType := typeUnder c.store.backend c.layers

def metrics (c : Cache K V) : Option Metrics := c.store.backend.metrics

/-- The fetch mode of the layer of a number. -/
def fetchMode? (c : Cache K V) (level : Nat) : Option FetchMode :=
  (c.layersFrom level).head?.map Layer.fetchMode

/-- The kind of what the layer of a number wraps. -/
def innerType (c : Cache K V) (level : Nat) : CacheType :=
  typeUnder c.store.backend ((c.layersFrom level).drop 1)

/-- The text of the layer of a number. -/
def layerDebug? (c : Cache K V) (level : Nat) : Option String :=
  (c.layersFrom level).head?.map fun layer =>
    Text.record "SelfPopulatingCache"
      [("name", Text.quoted c.name), ("inner_type", (c.innerType level).debug),
       ("failure_policy", layer.failurePolicy.debug),
       ("load_stripes", toString layer.fetchMode.stripes)] true

def close (c : Cache K V) (w : World) : Step (Cache K V) (Note K V) Unit := c.onBackend (·.close w)

variable [DecidableEq K]

def insert (c : Cache K V) (w : World) (k : K) (value : Shared V) :
    Step (Cache K V) (Note K V) Unit :=
  c.onBackend (·.insert w k value)

/-- Removes `k` and says whether a live value was there. -/
def remove (c : Cache K V) (w : World) (k : K) : Step (Cache K V) (Note K V) Bool :=
  c.onBackend (·.remove w k)

/-- Stores a value under `k`, or removes `k` where there is none. -/
def put (c : Cache K V) (w : World) (k : K) : Option V → Step (Cache K V) (Note K V) Unit
  | some v => let (value, w) := w.share v; c.insert w k value
  | none => (c.remove w k).mapAnswer fun _ => ()

/-- Stores or removes each key of a list in turn. -/
def putAll (c : Cache K V) (w : World) : List (K × Option V) → Step (Cache K V) (Note K V) Unit
  | [] => .pure () c w
  | (k, v) :: rest => (c.put w k v).bind fun _ c w => c.putAll w rest

/-- Looks `k` up, asking the providers from the backend outwards while it is missing. -/
def get (c : Cache K V) (w : World) (k : K) : Step (Cache K V) (Note K V) (Found V) :=
  c.onStore (Store.get w k c.layers)

/-- Looks up each key of a list in turn, up to the first error; values found are held on to until
the end. -/
def getAll (c : Cache K V) (w : World) :
    List K → Step (Cache K V) (Note K V) (Except CacheError (List (Option (Shared V))))
  | [] => .pure (.ok []) c w
  | k :: ks => (c.get w k).bind fun found c w =>
    match found with
    | .error e => .pure (.error e) c w
    | .ok value =>
      let holding := match value with
        | some s => w.hold s.id
        | none => w
      let rest := c.getAll holding ks
      ⟨rest.answer.map (value :: ·), rest.state, { rest.world with held := w.held }, rest.log⟩

/-- Asks the provider of the layer of a number for `k`, whether it is missing or not. -/
def refresh? (c : Cache K V) (level : Nat) (w : World) (k : K) :
    Option (Step (Cache K V) (Note K V) (Found V)) :=
  match c.layersFrom level with
  | [] => none
  | layer :: below => some (c.onStore fun s => s.populate layer below.length w k)

def keys (c : Cache K V) (w : World) : Step (Cache K V) (Note K V) (List K) :=
  c.onBackend (·.keys w)

def size (c : Cache K V) (w : World) : Step (Cache K V) (Note K V) Nat := c.onBackend (·.size w)

def isEmpty (c : Cache K V) (w : World) : Step (Cache K V) (Note K V) Bool :=
  (c.size w).mapAnswer (· == 0)

/-- Whether `k` holds a live value; nothing is asked for. -/
def contains (c : Cache K V) (w : World) (k : K) : Bool := c.store.backend.contains w k

end Cache

end CacheLayer
