import CacheLayer.FileArea
import CacheLayer.Timestamps

/-!
# Shared values and the world around a cache

A stored value is a shared object: `Shared V` is the value with the identity of its object, so that
two handles can be told to be the same object. The world holds the clock, the supply of identities,
the objects that somebody outside holds on to, and the file area. `Step` is what an operation
gives: an answer, the new state, the world after it and what it logged, in order.
-/

namespace CacheLayer

/-- A shared object: its identity and its value. -/
structure Shared (V : Type u) where
  id : Nat
  value : V
  deriving DecidableEq, Repr

/-- What is around a cache. -/
structure World where
  /-- Nanoseconds on the clock. -/
  now : Nat
  /-- The identity that the next object gets. -/
  nextId : Nat
  /-- The identities of the objects that somebody outside holds. -/
  held : List Nat
  area : FileArea

namespace World

def share (w : World) (v : V) : Shared V × World :=
  (⟨w.nextId, v⟩, { w with nextId := w.nextId + 1 })

def advance (w : World) (nanos : Nat) : World := { w with now := w.now + nanos }

def hold (w : World) (id : Nat) : World := { w with held := id :: w.held }

def holds (w : World) (id : Nat) : Bool := w.held.contains id

end World

/-- What an operation on a state of `σ` gives; `ε` is what it logs. -/
structure Step (σ : Type u) (ε : Type v) (α : Type w) where
  answer : α
  state : σ
  world : World
  log : List ε

namespace Step

/-- An operation that only answers. -/
def pure (a : α) (s : σ) (w : World) : Step σ ε α := ⟨a, s, w, []⟩

/-- Continues with an operation on the state reached. -/
def bind (x : Step σ ε α) (f : α → σ → World → Step τ ε β) : Step τ ε β :=
  let y := f x.answer x.state x.world
  { y with log := x.log ++ y.log }

/-- Sees the state as part of another. -/
def mapState (x : Step σ ε α) (f : σ → τ) : Step τ ε α := ⟨x.answer, f x.state, x.world, x.log⟩

def mapAnswer (x : Step σ ε α) (f : α → β) : Step σ ε β := ⟨f x.answer, x.state, x.world, x.log⟩

def mapLog (x : Step σ ε α) (f : ε → δ) : Step σ δ α := ⟨x.answer, x.state, x.world, x.log.map f⟩

end Step

end CacheLayer
