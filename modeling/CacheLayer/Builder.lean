import CacheLayer.Cache

/-!
# Building caches

A builder collects the options of a cache; `Builder.build` checks those that matter for the kind of
cache and makes it. Options that do not matter are ignored, so that one configuration can describe
any kind.
-/

namespace CacheLayer

/-- The directory of disk tiers where none is configured. -/
def defaultDiskDirectory : String := "cachet"

/-- How many values a soft cache keeps alive where that is not configured. -/
def defaultSoftCapacity : Nat := 10000

/-- How many shards a cache has where that is not configured. -/
def defaultShardCount : Nat := 4

/-- How values of `V` under keys of `K` are stored. -/
structure Storage (K : Type u) (V : Type v) where
  codec : Codec V
  /-- The bytes of a value in memory, which stand in for the encoded size of one that cannot be
  encoded. -/
  footprint : Nat
  /-- What the shard of a key is chosen by. -/
  hash : K → UInt64

/-- The options of a cache to be built. -/
structure Builder where
  name : String
  config : CacheConfig
  shards : Nat
  /-- The directory of the disk tier where the configuration names none. -/
  fallbackDirectory : Option String := none
  fetchMode : FetchMode := .concurrent
  failurePolicy : FailurePolicy := .tolerateUnavailable
  hasListener : Bool := false
  deriving DecidableEq, Repr

namespace Builder

/-- The options of `config`. A number of shards that is zero is kept, and so refused later. -/
def ofConfig (name : String) (config : CacheConfig) : Builder :=
  { name, config, shards := config.shards.getD defaultShardCount }

def ofName (name : String) : Builder := ofConfig name {}

/-! ## Options -/

def withKind (b : Builder) (kind : CacheKind) : Builder :=
  { b with config := { b.config with kind } }

def withMemoryBound (b : Builder) (memoryBound : Bound) : Builder :=
  { b with config := { b.config with memoryBound } }

def withDiskBound (b : Builder) (diskBound : Bound) : Builder :=
  { b with config := { b.config with diskBound } }

def withTimeToLive (b : Builder) (d : Duration) : Builder :=
  { b with config := { b.config with timeToLive := some d } }

def withTimeToIdle (b : Builder) (d : Duration) : Builder :=
  { b with config := { b.config with timeToIdle := some d } }

def withEvictionPolicy (b : Builder) (evictionPolicy : EvictionPolicy) : Builder :=
  { b with config := { b.config with evictionPolicy } }

def withPersistence (b : Builder) (persistence : Persistence) : Builder :=
  { b with config := { b.config with persistence } }

def withDiskDirectory (b : Builder) (directory : String) : Builder :=
  { b with config := { b.config with diskDirectory := some directory } }

/-- Takes the least power of two that is not less than `n`; where that is no 64-bit count there are
no shards, which is refused later. -/
def withShards (b : Builder) (n : Nat) : Builder :=
  { b with shards := if nextPowerOfTwo n ≤ maxCount then nextPowerOfTwo n else 0 }

def withSoftCapacity (b : Builder) (n : Nat) : Builder :=
  { b with config := { b.config with softCapacity := some n } }

def withFetchMode (b : Builder) (fetchMode : FetchMode) : Builder := { b with fetchMode }

def withFailurePolicy (b : Builder) (failurePolicy : FailurePolicy) : Builder :=
  { b with failurePolicy }

def withListener (b : Builder) : Builder := { b with hasListener := true }

/-! ## Checking -/

/-- Refuses the options that make no cache of `kind`: no shards, whatever the kind, and a bound of
zero where the kind uses it. -/
def validate (b : Builder) (kind : CacheKind) : Except BuildError Unit :=
  if b.shards = 0 then .error .zeroShards
  else match kind with
    | .diskOverflow =>
      if b.config.memoryBound.max = 0 then .error .zeroCapacity
      else if b.config.persistence = .swapOnOverflow ∧ b.config.diskBound.max = 0 then
        .error .zeroCapacity
      else .ok ()
    | .softReference => if b.config.softCapacity = some 0 then .error .zeroCapacity else .ok ()
    | .volatile | .noOp => .ok ()

def directory (b : Builder) : String :=
  (b.config.diskDirectory.or b.fallbackDirectory).getD defaultDiskDirectory

/-! ## Building -/

variable {K : Type u} {V : Type v}

/-- Makes a cache of memory alone. -/
def buildVolatile (b : Builder) (st : Storage K V) (w : World) : Except BuildError (Volatile K V) :=
  (b.validate .volatile).map fun _ =>
    .make b.name (nextPowerOfTwo b.shards) st.hash b.config.timeToLive b.config.timeToIdle w.now

/-- Makes a cache of reclaimable values. -/
def buildSoft (b : Builder) (w : World) : Except BuildError (Soft K V) :=
  (b.validate .softReference).map fun _ =>
    .make b.name (b.config.softCapacity.getD defaultSoftCapacity) w.now

/-- Makes a two-tier cache; making the directory of its disk tier may fail, and may then leave the
directory above it behind. -/
def buildOverflow (b : Builder) (st : Storage K V) (w : World) :
    Except CacheError (Overflow K V) × World :=
  match b.validate .diskOverflow with
  | .error e => (.error (.build e), w)
  | .ok () =>
    let settings : OverflowSettings V :=
      { name := b.name, memoryBound := b.config.memoryBound, persistence := b.config.persistence
        timeToLive := b.config.timeToLive, timeToIdle := b.config.timeToIdle
        codec := st.codec, footprint := st.footprint }
    match b.config.persistence with
    | .none => (.ok (.make settings none w.now), w)
    | .swapOnOverflow =>
      match DiskTier.open? w.area (Path.ofText b.directory) b.name b.config.diskBound with
      | (none, area) => (.error (.io "cannot make the directory of the disk tier"), { w with area })
      | (some disk, area) => (.ok (.make settings (some disk) w.now), { w with area })

/-- Makes a cache of the given kind. -/
def buildKind (b : Builder) (st : Storage K V) (w : World) (kind : CacheKind) :
    Except CacheError (Backend K V) × World :=
  match kind with
  | .diskOverflow =>
    let (built, w) := b.buildOverflow st w
    (built.map .overflow, w)
  | .volatile => (((b.buildVolatile st w).mapError .build).map .volatile, w)
  | .softReference => (((b.buildSoft w).mapError .build).map .soft, w)
  | .noOp => (.ok (.absent b.name), w)

/-- Makes a cache of the configured kind. -/
def build (b : Builder) (st : Storage K V) (w : World) : Except CacheError (Backend K V) × World :=
  b.buildKind st w b.config.kind

/-- Makes a cache of the configured kind under a populating layer. -/
def buildPopulating (b : Builder) (st : Storage K V) (provider : Provider K V) (w : World) :
    Except CacheError (Cache K V) × World :=
  let (built, w) := b.build st w
  (built.map fun backend =>
    (Cache.plain backend).populating (.make provider b.fetchMode b.failurePolicy), w)

def debug (b : Builder) : String :=
  Text.record "CacheBuilder"
    [("name", Text.quoted b.name), ("config", b.config.debug), ("shards", toString b.shards),
     ("fetch_mode", b.fetchMode.debug), ("has_listener", toString b.hasListener)] true

end Builder

end CacheLayer
