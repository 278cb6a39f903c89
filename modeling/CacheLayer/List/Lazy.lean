import CacheLayer.Metrics
import CacheLayer.Provider
import CacheLayer.SoftHeap

/-!
# Lazy lists

A read-only list whose elements a provider produces on first use. The most recently used elements,
at most `cacheSize` of them, are held by the list; those that fall out are left to a soft heap and
can be recovered until the heap gives them up.

* `LazyList.get` looks an index up and fetches what is missing.
* `LazyList.window?` gives a part of a list as a list of its own.
-/

namespace CacheLayer

/-- What a lazy list fetches when an index is missing. -/
inductive MissStrategy where
  /-- The element alone. -/
  | singleFetch
  /-- A run of elements from there on, as many as the list holds at a time. -/
  | prefetchOnMiss
  deriving DecidableEq, Repr

def MissStrategy.debug : MissStrategy → String
  | .singleFetch => "SingleFetch"
  | .prefetchOnMiss => "PrefetchOnMiss"

/-- How many times the elements it holds a list leaves to its heap, where that is not given. -/
def defaultSoftRetentionFactor : Nat := 4

/-- A list of elements that are produced on first use. -/
structure LazyList (V : Type u) where
  /-- The provider's index of the first element. -/
  offset : Nat
  length : Nat
  /-- The most elements that the list holds. -/
  cacheSize : Nat
  strategy : MissStrategy
  /-- The indices of the held elements, most recent first. -/
  hot : Recency Nat
  /-- The held elements. -/
  values : Table Nat (Shared V)
  /-- The handles of the elements that were left to the heap. -/
  soft : Table Nat (Shared V)
  heap : SoftHeap Nat V
  metrics : Metrics

/-- What a lazy list has counted. -/
structure ListStats where
  hits : Nat := 0
  misses : Nat := 0
  reclaimed : Nat := 0
  evicted : Nat := 0
  deriving DecidableEq, Repr

def ListStats.debug (s : ListStats) : String :=
  Text.record "ListStats"
    [("hits", toString s.hits), ("misses", toString s.misses), ("reclaimed", toString s.reclaimed),
     ("evicted", toString s.evicted)] false

namespace LazyList

variable {V : Type u}

/-- A list of nothing held over the `length` elements from `offset` on. -/
def fresh (offset length cacheSize : Nat) (strategy : MissStrategy) (softCapacity : Nat) :
    LazyList V :=
  ⟨offset, length, max 1 cacheSize, strategy, .empty, .empty, .empty, .ofCapacity softCapacity, {}⟩

/-- The soft capacity of a list that is given none. -/
def defaultSoftCapacity (cacheSize : Nat) : Nat :=
  saturate (max 1 cacheSize * defaultSoftRetentionFactor)

/-- A list of the first `length` elements of a provider. -/
def make (length cacheSize : Nat) (strategy : MissStrategy := .singleFetch)
    (softCapacity : Option Nat := none) : LazyList V :=
  fresh 0 length cacheSize strategy (softCapacity.getD (defaultSoftCapacity cacheSize))

def hotSize (l : LazyList V) : Nat := l.hot.size

def stats (l : LazyList V) : ListStats :=
  ⟨l.metrics.hits, l.metrics.misses, l.metrics.reclaimed, l.metrics.evictedByCapacity⟩

/-- Whether the object of a handle is alive: the list, its heap or somebody outside holds it. -/
def alive (l : LazyList V) (w : World) (s : Shared V) : Bool :=
  l.heap.alive w s || l.values.values.any fun held => held.id = s.id

/-- What an operation gives: an answer, the list, the world and the source after it, and the
requests that the list made. -/
structure Change (V : Type u) (α : Type v) where
  answer : α
  list : LazyList V
  world : World
  source : Source V
  requests : List Request

/-! ## Keeping elements -/

/-- Leaves the elements of `victims`, which have left the recency list, to the heap. -/
def retire (l : LazyList V) : List Nat → LazyList V
  | [] => l
  | i :: is =>
    match l.values.get? i with
    | none => l.retire is
    | some s =>
      let left : LazyList V :=
        { l with
          values := l.values.erase i
          heap := l.heap.retain i s
          soft := l.soft.insert i s
          metrics := { l.metrics with evictedByCapacity := l.metrics.evictedByCapacity + 1 } }
      left.retire is

/-- Holds an element as the most recent one and leaves those beyond the size to the heap. -/
def takeIn (l : LazyList V) (i : Nat) (s : Shared V) : LazyList V :=
  let (hot, victims) :=
    Recency.trim (fun r => l.cacheSize < r.size) (l.hot.size + 1) (l.hot.pushFront i 1)
  { l with
    hot
    soft := l.soft.erase i
    heap := (l.heap.release i).2
    values := l.values.insert i s }.retire victims

/-- Holds each element of a list in turn. -/
def takeInAll (l : LazyList V) : List (Nat × Shared V) → LazyList V
  | [] => l
  | (i, s) :: rest => (l.takeIn i s).takeInAll rest

/-- Forgets the handles of those of the indices whose elements are dead. -/
def forgetDead (l : LazyList V) (w : World) : List Nat → LazyList V
  | [] => l
  | i :: is =>
    match l.soft.get? i with
    | none => l.forgetDead w is
    | some s =>
      if l.alive w s then l.forgetDead w is
      else
        { l with
          soft := l.soft.erase i
          metrics := { l.metrics with reclaimed := l.metrics.reclaimed + 1 } }.forgetDead w is

/-- Looks at the indices that the heap gave up. -/
def sweep (l : LazyList V) (w : World) : LazyList V :=
  let (queued, heap) := l.heap.drain
  { l with heap }.forgetDead w queued

/-- Looks an index up among the held elements and those left to the heap. -/
def lookUp (l : LazyList V) (w : World) (i : Nat) : Option (Shared V) × LazyList V :=
  match l.values.get? i with
  | some s => (some s, { l with hot := l.hot.moveToFront i })
  | none =>
    match l.soft.get? i with
    | none => (none, l)
    | some s =>
      let rest := { l with soft := l.soft.erase i }
      if l.alive w s then (some s, rest.takeIn i s)
      else (none, { rest with metrics := { l.metrics with reclaimed := l.metrics.reclaimed + 1 } })

/-! ## Fetching -/

/-- The request that a missing index leads to. -/
def requestFor (l : LazyList V) (i : Nat) : Request :=
  match l.strategy with
  | .singleFetch => .single (l.offset + i)
  | .prefetchOnMiss => .range (l.offset + i) (l.offset + min (i + l.cacheSize) l.length)

/-- Asks the source for what a missing index leads to: the elements from that index on. -/
def ask (l : LazyList V) (source : Source V) (i : Nat) : Except ProviderError (List V) × Source V :=
  match l.requestFor i with
  | .single index =>
    let (answer, source) := source.single index
    (answer.map fun v => [v], source)
  | .range start stop => source.range start stop

/-- Makes shared objects of elements. -/
def shareAll (w : World) : List V → List (Shared V) × World
  | [] => ([], w)
  | v :: vs =>
    let (s, w) := w.share v
    let (ss, w) := shareAll w vs
    (s :: ss, w)

/-- The failure of a provider that gave nothing for an index. -/
def noElement (i : Nat) : CacheError :=
  .provider ⟨.failed, "provider returned no element for index " ++ toString i, none⟩

/-- The element of an index, which is fetched if it is neither held nor left to the heap. -/
def get (l : LazyList V) (w : World) (source : Source V) (i : Nat) :
    Change V (Except CacheError (Shared V)) :=
  if l.length ≤ i then ⟨.error (.indexOutOfBounds i l.length), l, w, source, []⟩
  else
    let (found, l) := (l.sweep w).lookUp w i
    match found with
    | some s => ⟨.ok s, { l with metrics := l.metrics.hit }, w, source, []⟩
    | none =>
      let l := { l with metrics := l.metrics.miss }
      let request := l.requestFor i
      match l.ask source i with
      | (.error e, source) => ⟨.error (.provider e), l, w, source, [request]⟩
      | (.ok vs, source) =>
        let wanted := match l.strategy with
          | .singleFetch => 1
          | .prefetchOnMiss => min (i + l.cacheSize) l.length - i
        let (shared, w) := shareAll w (vs.take wanted)
        let l := l.takeInAll ((List.range' i shared.length).zip shared)
        let l := { l with hot := l.hot.moveToFront i }
        match shared with
        | s :: _ => ⟨.ok s, l, w, source, [request]⟩
        | [] => ⟨.error (noElement i), l, w, source, [request]⟩

/-- The elements of the indices from `i` on, at most `count` of them. -/
def elements (l : LazyList V) (w : World) (source : Source V) (i : Nat) :
    Nat → Change V (List (Except CacheError (Shared V)))
  | 0 => ⟨[], l, w, source, []⟩
  | count + 1 =>
    if l.length ≤ i then ⟨[], l, w, source, []⟩
    else
      let first := l.get w source i
      let rest := first.list.elements first.world first.source (i + 1) count
      { rest with
        answer := first.answer :: rest.answer
        requests := first.requests ++ rest.requests }

/-! ## Other operations -/

/-- The elements from `start` up to `stop` as a list of its own, which holds nothing yet. -/
def window? (l : LazyList V) (start stop : Nat) : Except CacheError (LazyList V) :=
  if l.length < stop then .error (.indexOutOfBounds stop l.length)
  else if stop < start then .error (.indexOutOfBounds start stop)
  else .ok (fresh (l.offset + start) (stop - start) l.cacheSize l.strategy l.heap.capacity)

def onHeap (l : LazyList V) (f : SoftHeap Nat V → α × SoftHeap Nat V) : α × LazyList V :=
  let (answer, heap) := f l.heap
  (answer, { l with heap })

def debug (l : LazyList V) : String :=
  Text.record "CachedLazyList"
    [("offset", toString l.offset), ("len", toString l.length),
     ("cache_size", toString l.cacheSize), ("strategy", l.strategy.debug),
     ("heap", l.heap.debug)] true

end LazyList

end CacheLayer
