import CacheLayer.Cache

/-!
# Read/write lists

An indexed view of a cache whose keys are indices. Elements pass through a proxy on every write and
read, so that the cache can hold another representation than the list shows. Removing an element
leaves a gap; the size counts the indices that hold a value.
-/

namespace CacheLayer

/-- Converts the elements of a list to what a cache stores, and back. -/
structure Proxy (V : Type u) (S : Type v) where
  convert : V → Except CacheError S
  restore : S → Except CacheError V
  /-- Whether reading gives the stored object itself and not a new one. -/
  passThrough : Bool

namespace Proxy

/-- Stores elements as they are. -/
def identity : Proxy V V := ⟨.ok, .ok, true⟩

/-- Stores elements as the bytes of a codec. -/
def encoded (codec : Codec V) : Proxy V (List UInt8) where
  convert v := (codec.encode v).mapError fun fault => .serialization fault.message
  restore bytes := (codec.read bytes).mapError fun fault => .serialization fault.message
  passThrough := false

/-- The element of a stored object. -/
def read (p : Proxy V S) (w : World) (stored : Shared S) : Except CacheError (Shared V) × World :=
  match p.restore stored.value with
  | .error e => (.error e, w)
  | .ok v =>
    if p.passThrough then (.ok ⟨stored.id, v⟩, w)
    else
      let (s, w) := w.share v
      (.ok s, w)

end Proxy

/-- A list of elements over a cache. -/
structure ReadWriteList (V : Type u) (S : Type v) where
  cache : Cache Nat S
  proxy : Proxy V S

namespace ReadWriteList

variable {V : Type u} {S : Type v}

def onCache (l : ReadWriteList V S) (f : Cache Nat S → Step (Cache Nat S) (Note Nat S) α) :
    Step (ReadWriteList V S) (Note Nat S) α :=
  (f l.cache).mapState fun cache => { l with cache }

/-- The element at an index, if the cache holds or gets one. -/
def get (l : ReadWriteList V S) (w : World) (i : Nat) :
    Step (ReadWriteList V S) (Note Nat S) (Found V) :=
  (l.onCache (·.get w i)).bind fun found l w =>
    match found with
    | .error e => .pure (.error e) l w
    | .ok none => .pure (.ok none) l w
    | .ok (some stored) =>
      let (element, w) := l.proxy.read w stored
      .pure (element.map some) l w

def contains (l : ReadWriteList V S) (w : World) (i : Nat) : Bool := l.cache.contains w i

/-- Does something while an element is held on to. -/
def holding (w : World) (s : Option (Shared V)) (f : World → Step σ ε α) : Step σ ε α :=
  match s with
  | none => f w
  | some s =>
    let out := f (w.hold s.id)
    { out with world := { out.world with held := w.held } }

/-- Stores an element at an index and gives the one it replaces. One that cannot be converted
changes nothing; one before that cannot be read counts as absent. -/
def set (l : ReadWriteList V S) (w : World) (i : Nat) (v : V) :
    Step (ReadWriteList V S) (Note Nat S) (Found V) :=
  match l.proxy.convert v with
  | .error e => .pure (.error e) l w
  | .ok stored =>
    let before : Step (ReadWriteList V S) (Note Nat S) (Found V) :=
      if l.contains w i then l.get w i else .pure (.ok none) l w
    before.bind fun found l w =>
      let previous := found.toOption.join
      (holding w previous fun w => l.onCache (·.put w i (some stored))).mapAnswer
        fun _ => .ok previous

/-- Removes the element at an index and gives it. -/
def remove (l : ReadWriteList V S) (w : World) (i : Nat) :
    Step (ReadWriteList V S) (Note Nat S) (Found V) :=
  (l.get w i).bind fun found l w =>
    match found with
    | .error e => .pure (.error e) l w
    | .ok previous =>
      (holding w previous fun w => l.onCache (·.remove w i)).mapAnswer fun _ => .ok previous

def size (l : ReadWriteList V S) (w : World) : Step (ReadWriteList V S) (Note Nat S) Nat :=
  l.onCache (·.size w)

def isEmpty (l : ReadWriteList V S) (w : World) : Step (ReadWriteList V S) (Note Nat S) Bool :=
  l.onCache (·.isEmpty w)

/-- The indices that hold a value, in ascending order. -/
def indices (l : ReadWriteList V S) (w : World) :
    Step (ReadWriteList V S) (Note Nat S) (List Nat) :=
  (l.onCache (·.keys w)).mapAnswer fun keys => keys.mergeSort (fun i j => decide (i ≤ j))

def removeAll (l : ReadWriteList V S) (w : World) :
    List Nat → Step (ReadWriteList V S) (Note Nat S) Unit
  | [] => .pure () l w
  | i :: is => (l.onCache (·.remove w i)).bind fun _ l w => l.removeAll w is

/-- Removes every index that holds a value. -/
def clear (l : ReadWriteList V S) (w : World) : Step (ReadWriteList V S) (Note Nat S) Unit :=
  (l.onCache (·.keys w)).bind fun keys l w => l.removeAll w keys

def close (l : ReadWriteList V S) (w : World) : Step (ReadWriteList V S) (Note Nat S) Unit :=
  l.onCache (·.close w)

/-- What a step of an iteration gives: an index with its element, or an error, and the indices that
are left; nothing at the end. -/
abbrev Item (V : Type u) := Option (Except CacheError (Nat × Shared V) × List Nat)

/-- Takes the next element of an iteration over the listed indices; those that hold nothing any more
are passed over. -/
def next (l : ReadWriteList V S) (w : World) :
    List Nat → Step (ReadWriteList V S) (Note Nat S) (Item V)
  | [] => .pure none l w
  | i :: is => (l.get w i).bind fun found l w =>
    match found with
    | .ok (some s) => .pure (some (.ok (i, s), is)) l w
    | .ok none => l.next w is
    | .error e => .pure (some (.error e, is)) l w

def debug (l : ReadWriteList V S) : String :=
  Text.record "CachedReadWriteList"
    [("cache", Text.quoted l.cache.name), ("cache_type", l.cache.cacheType.debug)] true

end ReadWriteList

end CacheLayer
