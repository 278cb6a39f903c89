import CacheLayer.Recency.Basic
import CacheLayer.Table

/-!
# Linked recency lists

`Linked K` keeps the keys of a recency list in a pool of links. A link names its newer and its older
neighbour by their places in the pool, and an index finds the place of a key, so that every
operation but reading the whole list touches a bounded number of links. Places are never used twice.

* `Linked.toRecency` : the keys and weights from the front along `older`.
* `Linked.backwards` : the keys from the back along `newer`.
-/

namespace CacheLayer

/-- One link of a linked recency list. -/
structure Link (K : Type u) where
  key : K
  weight : Nat
  /-- The place of the next more recent link. -/
  newer : Option Nat
  /-- The place of the next less recent link. -/
  older : Option Nat
  deriving DecidableEq, Repr

/-- A recency list whose links name their neighbours. -/
structure Linked (K : Type u) where
  /-- The links by place. -/
  links : Table Nat (Link K)
  /-- The place of each listed key. -/
  index : Table K Nat
  /-- The place of the most recent key. -/
  front : Option Nat
  /-- The place of the least recent key. -/
  back : Option Nat
  /-- The total weight of the listed keys. -/
  total : Nat
  /-- The place the next new link gets. -/
  nextPlace : Nat

namespace Linked

variable {K : Type u}

def empty : Linked K := ⟨.empty, .empty, none, none, 0, 0⟩

def size (l : Linked K) : Nat := l.index.size

/-- Joins the neighbours of the link at `place`, which stays in the pool. -/
def detach (l : Linked K) (place : Nat) : Linked K :=
  match l.links.get? place with
  | none => l
  | some link =>
    let l := match link.newer with
      | some newer =>
        { l with links := l.links.modify newer fun n => { n with older := link.older } }
      | none => { l with front := link.older }
    match link.older with
    | some older => { l with links := l.links.modify older fun o => { o with newer := link.newer } }
    | none => { l with back := link.newer }

/-- Puts the detached link at `place` before the front. -/
def attachFront (l : Linked K) (place : Nat) : Linked K :=
  let links := l.links.modify place fun link => { link with newer := none, older := l.front }
  match l.front with
  | some previous =>
    { l with
      links := links.modify previous fun link => { link with newer := some place }
      front := some place }
  | none => { l with links := links, front := some place, back := some place }

variable [DecidableEq K]

/-- Lists `k` at the front with weight `w`, in place of where it was listed. -/
def pushFront (l : Linked K) (k : K) (w : Nat) : Linked K :=
  match l.index.get? k with
  | some place =>
    let old := ((l.links.get? place).map Link.weight).getD 0
    let l := { l with
      links := l.links.modify place fun link => { link with weight := w }
      total := l.total - old + w }
    (l.detach place).attachFront place
  | none =>
    let place := l.nextPlace
    { l with
      links := l.links.insert place ⟨k, w, none, none⟩
      index := l.index.insert k place
      total := l.total + w
      nextPlace := place + 1 }.attachFront place

/-- Moves `k` to the front, if it is listed. -/
def moveToFront (l : Linked K) (k : K) : Linked K :=
  match l.index.get? k with
  | some place => if l.front = some place then l else (l.detach place).attachFront place
  | none => l

/-- Takes `k` off the list and gives its weight. -/
def remove (l : Linked K) (k : K) : Option Nat × Linked K :=
  match l.index.get? k with
  | none => (none, l)
  | some place =>
    let l := { l with index := l.index.erase k }.detach place
    match l.links.get? place with
    | none => (none, l)
    | some link =>
      (some link.weight, { l with links := l.links.erase place, total := l.total - link.weight })

/-- Takes the least recent key off the list and gives it with its weight. -/
def popBack (l : Linked K) : Option (K × Nat) × Linked K :=
  match l.back.bind l.links.get? with
  | none => (none, l)
  | some link =>
    let out := l.remove link.key
    (out.1.map fun w => (link.key, w), out.2)

def clear (l : Linked K) : Linked K := { empty with nextPlace := l.nextPlace }

/-! ## Reading the list -/

/-- The links met from `place` along `next`, at most `fuel` of them. -/
def walk (l : Linked K) (next : Link K → Option Nat) : Nat → Option Nat → List (Link K)
  | 0, _ => []
  | _ + 1, none => []
  | fuel + 1, some place =>
    match l.links.get? place with
    | none => []
    | some link => link :: l.walk next fuel (next link)

/-- The keys with their weights from the front along `older`. -/
def toRecency (l : Linked K) : Recency K :=
  ⟨(l.walk Link.older l.size l.front).map fun link => (link.key, link.weight), l.total⟩

/-- The keys from the back along `newer`. -/
def backwards (l : Linked K) : List K := (l.walk Link.newer l.size l.back).map Link.key

end Linked

end CacheLayer
