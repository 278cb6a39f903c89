import CacheLayer.Recency.Basic
import CacheLayer.Table
import CacheLayer.Text.Debug
import CacheLayer.World

/-!
# Soft heaps

A soft heap keeps a bounded number of values alive, by key, and gives up those that were retained or
touched least recently. The keys of the values it gave up wait in a queue until they are drained. A
handle to a value is dead once no heap retains the object and nobody outside holds it.
-/

namespace CacheLayer

/-- A heap that keeps values alive. -/
structure SoftHeap (K : Type u) (V : Type v) where
  /-- The most values kept alive. -/
  capacity : Nat
  /-- The retained keys, most recently retained or touched first. -/
  order : Recency K
  /-- The values kept alive. -/
  retained : Table K (Shared V)
  /-- The keys whose values were given up since the last drain, in that order. -/
  queue : List K

namespace SoftHeap

variable {K : Type u} {V : Type v}

/-- A heap of nothing that keeps at most `capacity` values alive. -/
def ofCapacity (capacity : Nat) : SoftHeap K V := ⟨capacity, .empty, .empty, []⟩

/-- A heap that gives values up on request only. -/
def unbounded : SoftHeap K V := ofCapacity maxCount

def size (h : SoftHeap K V) : Nat := h.order.size

/-- Whether the heap keeps the object alive, under whichever key. -/
def retains (h : SoftHeap K V) (id : Nat) : Bool := h.retained.values.any fun s => s.id = id

/-- Whether a handle to the object is alive: the heap retains it or somebody outside holds it. -/
def alive (h : SoftHeap K V) (w : World) (s : Shared V) : Bool := h.retains s.id || w.holds s.id

variable [DecidableEq K]

/-- Gives up the value of the oldest key and queues the key; says how many values that were. -/
def dropOldest (h : SoftHeap K V) : Option (Nat × SoftHeap K V) :=
  h.order.popBack.map fun popped =>
    let k := popped.1.1
    (if h.retained.contains k then 1 else 0,
      { h with order := popped.2, retained := h.retained.erase k, queue := h.queue ++ [k] })

/-- Gives up the oldest values while there are more than the capacity, at most `fuel` of them. -/
def settle : Nat → SoftHeap K V → SoftHeap K V
  | 0, h => h
  | fuel + 1, h =>
    if h.capacity < h.size then
      match h.dropOldest with
      | some (_, rest) => settle fuel rest
      | none => h
    else h

/-- Keeps a value alive under `k`, in place of the one before, and gives up the oldest beyond the
capacity. -/
def retain (h : SoftHeap K V) (k : K) (s : Shared V) : SoftHeap K V :=
  let h := { h with order := h.order.pushFront k 1, retained := h.retained.insert k s }
  settle h.size h

/-- Makes `k` the most recent key, if it is retained. -/
def touch (h : SoftHeap K V) (k : K) : SoftHeap K V := { h with order := h.order.moveToFront k }

/-- Stops keeping the value of `k` alive and gives it, without queueing the key. -/
def release (h : SoftHeap K V) (k : K) : Option (Shared V) × SoftHeap K V :=
  (h.retained.get? k, { h with order := h.order.remove k, retained := h.retained.erase k })

/-- Gives up the oldest values until `count` are gone, looking at no more than `fuel` keys. -/
def reclaimFrom : Nat → Nat → SoftHeap K V → Nat × SoftHeap K V
  | 0, _, h => (0, h)
  | fuel + 1, count, h =>
    if count = 0 then (0, h)
    else match h.dropOldest with
      | none => (0, h)
      | some (dropped, rest) =>
        let out := reclaimFrom fuel (count - dropped) rest
        (dropped + out.1, out.2)

/-- Gives up at most `count` of the oldest values and says how many. -/
def reclaim (h : SoftHeap K V) (count : Nat) : Nat × SoftHeap K V := reclaimFrom h.size count h

def reclaimAll (h : SoftHeap K V) : Nat × SoftHeap K V := h.reclaim maxCount

/-- The keys given up since the last drain, which are forgotten now. -/
def drain (h : SoftHeap K V) : List K × SoftHeap K V := (h.queue, { h with queue := [] })

/-- Stops keeping anything alive and empties the queue. -/
def clear (h : SoftHeap K V) : SoftHeap K V := ofCapacity h.capacity

omit [DecidableEq K] in
def debug (h : SoftHeap K V) : String :=
  Text.record "SoftHeap" [("capacity", toString h.capacity), ("retained", toString h.size)] false

/-- The text of a handle to an object that is alive or dead. -/
def handleDebug (alive : Bool) : String :=
  Text.record "SoftRef" [("reclaimed", toString (!alive))] false

end SoftHeap

end CacheLayer
