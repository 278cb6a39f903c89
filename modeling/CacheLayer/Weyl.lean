/-!
# A Weyl generator

A cheap source of spread-out numbers: the state grows by an odd constant modulo `2 ^ 64`, so its
low bits run through all residues, and `below` mixes the state before it takes a remainder.
-/

namespace CacheLayer

/-- A generator of 64-bit numbers. -/
structure Weyl where
  state : UInt64
  deriving DecidableEq, Repr, Inhabited

namespace Weyl

/-- What each draw adds to the state. -/
def increment : UInt64 := 0x9E3779B97F4A7C15

/-- The multiplier that `below` mixes with. -/
def multiplier : UInt64 := 0xff51afd7ed558ccd

/-- A generator that starts at `seed`, or at one where the seed is zero. -/
def seeded (seed : UInt64) : Weyl := ⟨if seed = 0 then 1 else seed⟩

/-- The state, and the generator after it. -/
def next (g : Weyl) : UInt64 × Weyl := (g.state, ⟨g.state + increment⟩)

/-- Whether the low bits of the next state that `denominator`, a power of two, covers are all zero:
true once in `denominator` draws. -/
def shouldRun (g : Weyl) (denominator : UInt64) : Bool × Weyl :=
  let drawn := g.next
  (drawn.1 &&& (denominator - 1) = 0, drawn.2)

def mix (x : UInt64) : UInt64 :=
  let x := x ^^^ (x >>> 33)
  let x := x * multiplier
  x ^^^ (x >>> 33)

/-- A number below `bound`, which is not zero. -/
def below (g : Weyl) (bound : Nat) : Nat × Weyl :=
  let drawn := g.next
  ((mix drawn.1).toNat % bound, drawn.2)

end Weyl

end CacheLayer
