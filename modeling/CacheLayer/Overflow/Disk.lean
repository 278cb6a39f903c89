import CacheLayer.Config.Basic
import CacheLayer.Eviction
import CacheLayer.Recency.Basic

/-!
# The disk tier

The tier of a two-tier cache that lies in a private directory, one file for each entry. File numbers
are never used twice. The tier keeps the stamps of its entries and their recency; an operation that
fails in the file area leaves no entry behind.
-/

namespace CacheLayer

/-- Whether a recency list is beyond a bound. -/
def Bound.exceededBy (b : Bound) (r : Recency K) : Bool :=
  match b with
  | .entries max => max < r.size
  | .bytes max => max < r.total

/-- Where an entry lies on disk, and its stamps. -/
structure DiskSlot where
  fileId : Nat
  stamps : Timestamps
  deriving DecidableEq, Repr

/-- Which private directory a tier uses. -/
structure TierPlace where
  number : Nat
  parent : Path
  stem : String
  deriving DecidableEq, Repr

/-- A disk tier; there is no place once it is closed. -/
structure DiskTier (K : Type u) where
  place : Option TierPlace
  slots : Table K DiskSlot
  order : Recency K
  bound : Bound
  nextFileId : Nat

namespace DiskTier

variable {K : Type u}

/-- The chosen part of the name of a tier's directory: the cache's name, in which everything but
ASCII letters and digits became an underscore, and a dash. -/
def stemOf (cacheName : String) : String :=
  String.ofList (cacheName.toList.map fun c => if c.isAlphanum then c else '_') ++ "-"

/-- The name of the file of a number. -/
def fileName (fileId : Nat) : String := Text.paddedHex 16 fileId ++ ".bin"

/-- Makes a tier with its directory below `parent`, which is made where it is missing. -/
def open? (area : FileArea) (parent : Path) (cacheName : String) (bound : Bound) :
    Option (DiskTier K) × FileArea :=
  match area.makeAll parent with
  | (false, area) => (none, area)
  | (true, area) =>
    match area.makeTier parent (stemOf cacheName) with
    | none => (none, area)
    | some (number, area) =>
      (some ⟨some ⟨number, parent, stemOf cacheName⟩, .empty, .empty, bound, 0⟩, area)

def size (t : DiskTier K) : Nat := t.slots.size

def sizeBytes (t : DiskTier K) : Nat := t.order.total

/-- Drops every entry and deletes the directory. -/
def close (t : DiskTier K) (area : FileArea) : DiskTier K × FileArea :=
  ({ t with place := none, slots := .empty, order := .empty },
    match t.place with
    | some place => area.deleteTier place.number
    | none => area)

/-- What an operation of a tier gives. -/
structure Change (K : Type u) (α : Type v) where
  answer : α
  tier : DiskTier K
  area : FileArea

variable [DecidableEq K]

def contains (t : DiskTier K) (k : K) : Bool := t.slots.contains k

/-- Why the entry of `k` is expired, if there is one and it is. -/
def expiration (t : DiskTier K) (now : Nat) (timeToIdle : Option Duration) (k : K) :
    Option Expiration :=
  (t.slots.get? k).bind fun slot => slot.stamps.expiration now timeToIdle

omit [DecidableEq K] in
/-- The keys of the expired entries, with the reasons. -/
def expiredKeys (t : DiskTier K) (now : Nat) (timeToIdle : Option Duration) :
    List (K × Expiration) :=
  t.slots.entries.filterMap fun e => (e.2.stamps.expiration now timeToIdle).map fun x => (e.1, x)

/-- Drops the slot of `k` with its file. -/
def deleteSlot (t : DiskTier K) (area : FileArea) (k : K) : DiskTier K × FileArea :=
  match t.slots.get? k with
  | none => (t, area)
  | some slot =>
    ({ t with slots := t.slots.erase k },
      match t.place with
      | some place => area.delete place.number (fileName slot.fileId)
      | none => area)

/-- Removes the entry of `k` and says whether there was one. -/
def remove (t : DiskTier K) (area : FileArea) (k : K) : Change K Bool :=
  match t.order.weight? k with
  | none => ⟨false, t, area⟩
  | some _ =>
    let (tier, area) := { t with order := t.order.remove k }.deleteSlot area k
    ⟨true, tier, area⟩

/-- Drops the slots of keys that have left the recency list. -/
def deleteSlots (t : DiskTier K) (area : FileArea) : List K → DiskTier K × FileArea
  | [] => (t, area)
  | k :: ks =>
    let (t, area) := t.deleteSlot area k
    t.deleteSlots area ks

/-- Writes an entry, in place of the one before, and gives the keys that the bound pushes out;
nothing if the file cannot be written. -/
def write (t : DiskTier K) (area : FileArea) (k : K) (bytes : List UInt8) (stamps : Timestamps) :
    Change K (Option (List K)) :=
  let removed := t.remove area k
  let fileId := removed.tier.nextFileId
  let t := { removed.tier with nextFileId := fileId + 1 }
  match t.place.bind fun place => removed.area.write place.number (fileName fileId) bytes with
  | none => ⟨none, t, removed.area⟩
  | some area =>
    let order := t.order.pushFront k bytes.length
    let (order, victims) := Recency.trim t.bound.exceededBy order.size order
    let (t, area) :=
      { t with order, slots := t.slots.insert k ⟨fileId, stamps⟩ }.deleteSlots area victims
    ⟨some victims, t, area⟩

/-- Removes the entry of `k` and gives its bytes and stamps, or nothing where its file cannot be
read. -/
def take (t : DiskTier K) (area : FileArea) (k : K) :
    Option (Change K (Option (List UInt8 × Timestamps))) :=
  (t.slots.get? k).map fun slot =>
    let t := { t with slots := t.slots.erase k, order := t.order.remove k }
    match t.place with
    | none => ⟨none, t, area⟩
    | some place =>
      let name := fileName slot.fileId
      match area.read place.number name with
      | none => ⟨none, t, area⟩
      | some bytes => ⟨some (bytes, slot.stamps), t, area.delete place.number name⟩

end DiskTier

end CacheLayer
