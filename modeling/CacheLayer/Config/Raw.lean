import CacheLayer.Config.Basic
import CacheLayer.Config.TimeSpan
import CacheLayer.Error

/-!
# Raw configurations

The fields of a configuration as they are written, and their check: `RawConfig.check` turns them
into options or names the first field that has no sensible value.
-/

namespace CacheLayer

/-- The fields of one cache as they are written. -/
structure RawCache where
  kind : Option String := none
  heapSizeBytes : Option Nat := none
  maxEntriesInMemory : Option Nat := none
  diskSizeBytes : Option Nat := none
  maxEntriesOnDisk : Option Nat := none
  idleTimeout : Option String := none
  liveTimeout : Option String := none
  evictionPolicy : Option String := none
  persistence : Option String := none
  diskDirectory : Option String := none
  softCapacity : Option Nat := none
  shards : Option Nat := none
  deriving DecidableEq, Repr

/-- The fields of a registry as they are written. -/
structure RawConfig where
  defaultDiskDirectory : Option String := none
  caches : List (String × RawCache) := []
  deriving DecidableEq, Repr

namespace RawCache

/-- A field of the cache `name` that has no sensible value. -/
def invalid (name field message : String) : CacheError :=
  .invalidConfigValue ("caches." ++ name ++ "." ++ field) message

/-- A bound that is given by at most one of two fields. -/
def checkBound (name bytesField entriesField : String) (bytes entries : Option Nat)
    (default : Bound) : Except CacheError Bound :=
  match bytes, entries with
  | some _, some _ =>
    .error (invalid name bytesField
      ("Set either " ++ bytesField ++ " or " ++ entriesField ++ ", not both."))
  | some n, none => .ok (.bytes n)
  | none, some n => .ok (.entries n)
  | none, none => .ok default

/-- A time span that may be absent. -/
def checkTimeout (name field : String) : Option String → Except CacheError (Option Duration)
  | none => .ok none
  | some text => match TimeSpan.parse text with
    | .ok d => .ok (some d)
    | .error fault =>
      .error (invalid name field ("Invalid duration '" ++ text ++ "': " ++ fault.message))

/-- The kind, which is the two-tier cache unless it is given. -/
def checkKind (name : String) : Option String → Except CacheError CacheKind
  | none => .ok .diskOverflow
  | some text => match CacheKind.ofName? text with
    | some kind => .ok kind
    | none => .error (invalid name "kind" ("Unknown kind '" ++ text ++
        "'. Expected 'disk_overflow', 'volatile', 'soft_reference', or 'no_op'."))

/-- The eviction policy, in letters of either case. -/
def checkPolicy (name : String) : Option String → Except CacheError EvictionPolicy
  | none => .ok .lru
  | some text =>
    if text.toList.map Char.toLower = ['l', 'r', 'u'] then .ok .lru
    else .error (invalid name "eviction_policy"
      ("Unknown eviction_policy '" ++ text ++ "'. Expected 'lru'."))

/-- The way to persist, which is to drop unless it is given. -/
def checkPersistence (name : String) : Option String → Except CacheError Persistence
  | none => .ok .none
  | some text => match Persistence.ofName? text with
    | some persistence => .ok persistence
    | none => .error (invalid name "persistence"
        ("Unknown persistence '" ++ text ++ "'. Expected 'none' or 'swap_on_overflow'."))

/-- The options of the cache `name`, or the first field at fault. -/
def check (name : String) (raw : RawCache) : Except CacheError CacheConfig := do
  let defaults : CacheConfig := {}
  let kind ← checkKind name raw.kind
  let memoryBound ← checkBound name "heap_size_bytes" "max_entries_in_memory" raw.heapSizeBytes
    raw.maxEntriesInMemory defaults.memoryBound
  let diskBound ← checkBound name "disk_size_bytes" "max_entries_on_disk" raw.diskSizeBytes
    raw.maxEntriesOnDisk defaults.diskBound
  let evictionPolicy ← checkPolicy name raw.evictionPolicy
  let persistence ← checkPersistence name raw.persistence
  let timeToIdle ← checkTimeout name "idle_timeout" raw.idleTimeout
  let timeToLive ← checkTimeout name "live_timeout" raw.liveTimeout
  return { kind, memoryBound, diskBound, timeToIdle, timeToLive, evictionPolicy, persistence,
           diskDirectory := raw.diskDirectory, softCapacity := raw.softCapacity,
           shards := raw.shards }

end RawCache

namespace RawConfig

/-- The options of the listed caches, or the first field at fault. -/
def checkAll : List (String × RawCache) → Except CacheError (List (String × CacheConfig))
  | [] => .ok []
  | (name, raw) :: rest => do
    let config ← raw.check name
    let configs ← checkAll rest
    return (name, config) :: configs

/-- The options of a registry, or the first field at fault. -/
def check (raw : RawConfig) : Except CacheError RegistryConfig := do
  let caches ← checkAll raw.caches
  return { defaultDiskDirectory := raw.defaultDiskDirectory, caches }

end RawConfig

end CacheLayer
