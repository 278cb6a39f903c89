import CacheLayer.Recency.Linked
import CacheLayer.Timestamps

/-!
# Checked linked lists

The operations of a linked list with nothing taken on trust. They end in `none` where they look up a
place that holds no link, take more from the total than it has, or let it grow beyond the largest
count. `Linked` leaves such a link alone and counts without a bound.
-/

namespace CacheLayer

namespace Linked

variable {K : Type u}

/-- Changes the link at `place`, which has to be there. -/
def change? (l : Linked K) (place : Nat) (f : Link K → Link K) : Option (Linked K) :=
  if l.links.contains place then some { l with links := l.links.modify place f } else none

/-- Adds to the total, which has to stay a count. -/
def add? (l : Linked K) (weight : Nat) : Option (Linked K) :=
  if l.total + weight ≤ maxCount then some { l with total := l.total + weight } else none

/-- Takes from the total, which has to be as much. -/
def subtract? (l : Linked K) (weight : Nat) : Option (Linked K) :=
  if weight ≤ l.total then some { l with total := l.total - weight } else none

def detach? (l : Linked K) (place : Nat) : Option (Linked K) := do
  let link ← l.links.get? place
  let l ← match link.newer with
    | some newer => l.change? newer fun n => { n with older := link.older }
    | none => some { l with front := link.older }
  match link.older with
  | some older => l.change? older fun o => { o with newer := link.newer }
  | none => some { l with back := link.newer }

def attachFront? (l : Linked K) (place : Nat) : Option (Linked K) := do
  let previous := l.front
  let l ← l.change? place fun link => { link with newer := none, older := previous }
  match previous with
  | some previous =>
    change? { l with front := some place } previous fun link => { link with newer := some place }
  | none => some { l with front := some place, back := some place }

variable [DecidableEq K]

def pushFront? (l : Linked K) (k : K) (w : Nat) : Option (Linked K) :=
  match l.index.get? k with
  | some place => do
    let old ← l.links.get? place
    let l ← l.subtract? old.weight
    let l ← l.add? w
    let l ← l.change? place fun link => { link with weight := w }
    let l ← l.detach? place
    l.attachFront? place
  | none => do
    let place := l.nextPlace
    let l ← l.add? w
    attachFront?
      { l with
        links := l.links.insert place ⟨k, w, none, none⟩
        index := l.index.insert k place
        nextPlace := place + 1 } place

def moveToFront? (l : Linked K) (k : K) : Option (Linked K) :=
  match l.index.get? k with
  | some place =>
    if l.front = some place then some l
    else do
      let l ← l.detach? place
      l.attachFront? place
  | none => some l

def remove? (l : Linked K) (k : K) : Option (Option Nat × Linked K) :=
  match l.index.get? k with
  | none => some (none, l)
  | some place => do
    let l ← detach? { l with index := l.index.erase k } place
    match l.links.get? place with
    | none => some (none, l)
    | some link => do
      let l ← subtract? { l with links := l.links.erase place } link.weight
      some (some link.weight, l)

def popBack? (l : Linked K) : Option (Option (K × Nat) × Linked K) :=
  match l.back with
  | none => some (none, l)
  | some back => do
    let link ← l.links.get? back
    let out ← l.remove? link.key
    some (out.1.map fun w => (link.key, w), out.2)

end Linked

end CacheLayer
