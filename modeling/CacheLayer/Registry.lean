import CacheLayer.Builder
import CacheLayer.List.ReadWrite

/-!
# The registry of named caches

A registry maps names to live caches, each with a tag for the types of its keys and values. A name
is bound to one cache at a time; a look-up with another tag is a mismatch and runs nothing.

A `Session` is a registry with the caches that are alive and the handles that its users keep. A
cache lives while the registry or a handle refers to it; when the last reference goes, what it holds
on disk goes too.
-/

namespace CacheLayer

/-- How a cache is registered. -/
structure Registration (T : Type u) where
  /-- The number of the live cache. -/
  number : Nat
  /-- The types of its keys and values. -/
  tag : T
  cacheType : CacheType
  deriving DecidableEq, Repr

/-- The named caches, with the configuration that new ones start from. -/
structure Registry (T : Type u) where
  caches : Table String (Registration T)
  defaultDirectory : String
  configured : List (String × CacheConfig)

namespace Registry

variable {T : Type u}

/-- A registry of no caches that knows no configuration. -/
def empty : Registry T := ⟨.empty, defaultDiskDirectory, []⟩

/-- A registry of no caches that knows the caches that a configuration declares. -/
def ofConfig (config : RegistryConfig) : Registry T :=
  ⟨.empty, config.defaultDiskDirectory.getD defaultDiskDirectory, config.caches⟩

def names (r : Registry T) : List String := r.caches.keys

def cacheType (r : Registry T) (name : String) : Option CacheType :=
  (r.caches.get? name).map Registration.cacheType

/-- The declared configuration of a name. -/
def configuredFor (r : Registry T) (name : String) : Option CacheConfig :=
  (r.configured.find? fun c => c.1 = name).map Prod.snd

/-- The number of the cache of a name, if there is one; it has to be of the given types. -/
def find [DecidableEq T] (r : Registry T) (tag : T) (name : String) :
    Except CacheError (Option Nat) :=
  match r.caches.get? name with
  | none => .ok none
  | some entry => if entry.tag = tag then .ok (some entry.number) else .error (.typeMismatch name)

/-- A builder for a name that falls back to the registry's directory. -/
def builder (r : Registry T) (name : String) (config : CacheConfig) : Builder :=
  { Builder.ofConfig name config with fallbackDirectory := some r.defaultDirectory }

/-- The text of a registry whose directories lie below `root`. -/
def debug (r : Registry T) (root : String) : String :=
  Text.record "CacheRegistry"
    [("caches", Text.listed (r.names.map Text.quoted)),
     ("default_disk_directory", Text.quoted (Path.below root r.defaultDirectory)),
     ("configured", Text.listed (r.configured.map fun c => Text.quoted c.1))] false

end Registry

/-- A registry, the caches that are alive and the handles that are kept. -/
structure Session (K : Type u) (V : Type v) (T : Type w) where
  /-- The registry, until it is dropped. -/
  registry : Option (Registry T)
  /-- The caches that are alive, by number. -/
  alive : Table Nat (Cache K V)
  /-- The number that the next cache gets. -/
  nextNumber : Nat
  /-- The kept handles by types and slot. -/
  handles : Table (T × String) Nat
  world : World

namespace Session

variable {K : Type u} {V : Type v} {T : Type w}

/-- A session that begins with a registry. -/
def start (registry : Registry T) (world : World) : Session K V T :=
  ⟨some registry, .empty, 0, .empty, world⟩

/-- Whether the registry or a handle refers to the cache of a number. -/
def refersTo (s : Session K V T) (number : Nat) : Bool :=
  (match s.registry with
    | some r => r.caches.values.any fun entry => entry.number = number
    | none => false) || s.handles.values.contains number

/-- Lets go of the listed caches as far as nothing refers to them. -/
def release (s : Session K V T) : List Nat → Session K V T
  | [] => s
  | n :: ns =>
    match s.alive.get? n with
    | none => s.release ns
    | some cache =>
      if s.refersTo n then s.release ns
      else { s with
        alive := s.alive.erase n
        world := { s.world with area := (cache.close s.world).world.area } }.release ns

/-- Lets go of every cache that nothing refers to. -/
def collect (s : Session K V T) : Session K V T := s.release s.alive.keys

/-- Makes a cache alive and gives its number. -/
def adopt (s : Session K V T) (cache : Cache K V) : Nat × Session K V T :=
  (s.nextNumber,
    { s with alive := s.alive.insert s.nextNumber cache, nextNumber := s.nextNumber + 1 })

/-- The identities of the objects that caches other than one keep alive. -/
def heldElsewhere (s : Session K V T) (number : Nat) : List Nat :=
  s.alive.entries.flatMap fun c => if c.1 = number then [] else c.2.store.backend.retainedIds

/-- Runs an operation on the cache of a number, while somebody holds the objects listed. -/
def on (s : Session K V T) (number : Nat) (held : List Nat)
    (f : Cache K V → World → Step (Cache K V) (Note K V) α) : Option (α × Session K V T) :=
  (s.alive.get? number).map fun cache =>
    let out := f cache { s.world with held := held ++ s.heldElsewhere number }
    (out.answer, { s with alive := s.alive.insert number out.state, world := out.world })

variable [DecidableEq T]

/-- What asking for a cache gives: the number of the cache, and whether the factory ran. -/
structure Acquired where
  found : Except CacheError Nat
  ran : Bool

/-- The cache of a name, made by `factory` and registered if there is none. -/
def getOrCreateWith (s : Session K V T) (r : Registry T) (tag : T) (name : String)
    (factory : World → Except CacheError (Cache K V) × World) : Acquired × Session K V T :=
  match r.find tag name with
  | .error e => (⟨.error e, false⟩, s)
  | .ok (some number) => (⟨.ok number, false⟩, s)
  | .ok none =>
    match factory s.world with
    | (.error e, world) => (⟨.error e, true⟩, { s with world })
    | (.ok cache, world) =>
      let (number, s) := { s with world }.adopt cache
      (⟨.ok number, true⟩,
        { s with registry := some { r with
            caches := r.caches.insert name ⟨number, tag, cache.cacheType⟩ } })

/-- The cache of a name, built from `config` if there is none. -/
def getOrCreate (s : Session K V T) (r : Registry T) (storage : T → Storage K V) (tag : T)
    (name : String) (config : CacheConfig) : Acquired × Session K V T :=
  s.getOrCreateWith r tag name fun w =>
    let (built, w) := (r.builder name config).build (storage tag) w
    (built.map Cache.plain, w)

/-- The cache of a name, built from its declared configuration if there is none. -/
def getOrCreateConfigured (s : Session K V T) (r : Registry T) (storage : T → Storage K V) (tag : T)
    (name : String) : Acquired × Session K V T :=
  match r.configuredFor name with
  | none => (⟨.error (.unknownCache name), false⟩, s)
  | some config => s.getOrCreate r storage tag name config

/-- The cache of a name, built from `config` under a layer with `provider` if there is none. -/
def getOrCreatePopulating (s : Session K V T) (r : Registry T) (storage : T → Storage K V) (tag : T)
    (name : String) (config : CacheConfig) (provider : Provider K V) : Acquired × Session K V T :=
  s.getOrCreateWith r tag name ((r.builder name config).buildPopulating (storage tag) provider)

omit [DecidableEq T] in
/-- Builds a cache that is not registered. -/
def build (s : Session K V T) (r : Registry T) (storage : T → Storage K V) (tag : T) (name : String)
    (config : CacheConfig) : Except CacheError Nat × Session K V T :=
  match (r.builder name config).build (storage tag) s.world with
  | (.error e, world) => (.error e, { s with world })
  | (.ok backend, world) =>
    let (number, s) := { s with world }.adopt (.plain backend)
    (.ok number, s)

/-- Keeps a handle in a slot, in place of the one before. -/
def keep (s : Session K V T) (tag : T) (slot : String) (number : Nat) : Session K V T :=
  { s with handles := s.handles.insert (tag, slot) number }.collect

/-- Lets go of the handle in a slot and says whether there was one. -/
def forget (s : Session K V T) (tag : T) (slot : String) : Bool × Session K V T :=
  (s.handles.contains (tag, slot), { s with handles := s.handles.erase (tag, slot) }.collect)

/-- The number of the cache in a slot. -/
def handle? (s : Session K V T) (tag : T) (slot : String) : Option Nat := s.handles.get? (tag, slot)

omit [DecidableEq T] in
/-- Closes the cache of a name and forgets the name; says whether there was one. -/
def remove (s : Session K V T) (r : Registry T) (name : String) : Bool × Session K V T :=
  match r.caches.get? name with
  | none => (false, s)
  | some entry =>
    let s := { s with registry := some { r with caches := r.caches.erase name } }
    match s.on entry.number [] fun c w => c.close w with
    | none => (true, s)
    | some ((), s) => (true, s.collect)

omit [DecidableEq T] in
/-- Closes and forgets each of the names listed. -/
def removeAll (s : Session K V T) : List String → Session K V T
  | [] => s
  | name :: names =>
    match s.registry with
    | none => s
    | some r => (s.remove r name).2.removeAll names

omit [DecidableEq T] in
def clear (s : Session K V T) : Session K V T :=
  match s.registry with
  | none => s
  | some r => s.removeAll r.names

omit [DecidableEq T] in
def dropRegistry (s : Session K V T) : Session K V T := { s.clear with registry := none }.collect

omit [DecidableEq T] in
/-- Changes the directory of disk tiers made from now on. -/
def setDefaultDirectory (s : Session K V T) (r : Registry T) (directory : String) : Session K V T :=
  { s with registry := some { r with defaultDirectory := directory } }

end Session

end CacheLayer
