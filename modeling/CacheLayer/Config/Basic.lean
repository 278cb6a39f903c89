import CacheLayer.Text.Debug
import CacheLayer.Timestamps

/-!
# Cache configurations

The options of a single cache and of a registry, their defaults and their diagnostic texts.
-/

namespace CacheLayer

/-- Which cache a configuration describes. -/
inductive CacheKind where
  | diskOverflow
  | volatile
  | softReference
  | noOp
  deriving DecidableEq, Repr

/-- A bound on a tier, by the number of its entries or by their bytes. -/
inductive Bound where
  | entries (max : Nat)
  | bytes (max : Nat)
  deriving DecidableEq, Repr

/-- The number that a bound allows. -/
def Bound.max : Bound → Nat
  | .entries max => max
  | .bytes max => max

/-- What becomes of an entry that the memory tier pushes out. -/
inductive Persistence where
  /-- It is dropped. -/
  | none
  /-- It is written to the disk tier. -/
  | swapOnOverflow
  deriving DecidableEq, Repr

/-- Which entry leaves first. -/
inductive EvictionPolicy where
  /-- The least recently used one. -/
  | lru
  deriving DecidableEq, Repr

/-- The options of one cache. -/
structure CacheConfig where
  kind : CacheKind := .diskOverflow
  memoryBound : Bound := .entries 10000
  diskBound : Bound := .entries 100000
  timeToIdle : Option Duration := none
  timeToLive : Option Duration := none
  evictionPolicy : EvictionPolicy := .lru
  persistence : Persistence := .none
  /-- Where the disk tier is made; the registry decides where it is not given. -/
  diskDirectory : Option String := none
  /-- How many values a soft cache keeps alive. -/
  softCapacity : Option Nat := none
  shards : Option Nat := none
  deriving DecidableEq, Repr

instance : Inhabited CacheConfig := ⟨{}⟩

/-- The options of a registry: where disk tiers are made and which caches are declared. -/
structure RegistryConfig where
  defaultDiskDirectory : Option String := none
  /-- The declared caches by name; of two of one name the later counts. -/
  caches : List (String × CacheConfig) := []
  deriving DecidableEq, Repr

/-! ## Names and texts -/

def CacheKind.name : CacheKind → String
  | .diskOverflow => "disk_overflow"
  | .volatile => "volatile"
  | .softReference => "soft_reference"
  | .noOp => "no_op"

def CacheKind.ofName? : String → Option CacheKind
  | "disk_overflow" => some .diskOverflow
  | "volatile" => some .volatile
  | "soft_reference" => some .softReference
  | "no_op" => some .noOp
  | _ => none

def Persistence.name : Persistence → String
  | .none => "none"
  | .swapOnOverflow => "swap_on_overflow"

def Persistence.ofName? : String → Option Persistence
  | "none" => some .none
  | "swap_on_overflow" => some .swapOnOverflow
  | _ => Option.none

def CacheKind.debug : CacheKind → String
  | .diskOverflow => "DiskOverflow"
  | .volatile => "Volatile"
  | .softReference => "SoftReference"
  | .noOp => "NoOp"

def Bound.debug : Bound → String
  | .entries max => "Entries(" ++ toString max ++ ")"
  | .bytes max => "Bytes(" ++ toString max ++ ")"

def Persistence.debug : Persistence → String
  | .none => "None"
  | .swapOnOverflow => "SwapOnOverflow"

def EvictionPolicy.debug : EvictionPolicy → String
  | .lru => "Lru"

def CacheConfig.debug (c : CacheConfig) : String :=
  Text.record "CacheConfig"
    [("kind", c.kind.debug), ("memory_bound", c.memoryBound.debug),
     ("disk_bound", c.diskBound.debug),
     ("time_to_idle", Text.optional Text.duration c.timeToIdle),
     ("time_to_live", Text.optional Text.duration c.timeToLive),
     ("eviction_policy", c.evictionPolicy.debug), ("persistence", c.persistence.debug),
     ("disk_directory", Text.optional Text.quoted c.diskDirectory),
     ("soft_capacity", Text.optional toString c.softCapacity),
     ("shards", Text.optional toString c.shards)] false

end CacheLayer
