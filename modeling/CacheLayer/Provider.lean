import CacheLayer.Error

/-!
# Providers

A provider computes values on request, and each request may be answered in the light of those before
it. A keyed provider answers for keys; an indexed provider answers for single indices and, if it
knows how, for ranges of them.
-/

namespace CacheLayer

/-- Computes the value of a key; the first argument is the keys asked for before, oldest first. -/
structure Provider (K : Type u) (V : Type v) where
  provide : List K → K → Except ProviderError V

/-! ## Indexed providers -/

/-- A request to an indexed provider. -/
inductive Request where
  | single (index : Nat)
  /-- The indices from `start` up to `stop`, without it. -/
  | range (start stop : Nat)
  deriving DecidableEq, Repr

/-- Computes the elements of a sequence; the first argument is the requests made before, oldest
first. Where there is no answer for ranges, a range is answered index by index. -/
structure IndexedProvider (V : Type v) where
  single : List Request → Nat → Except ProviderError V
  range : Option (List Request → Nat → Nat → Except ProviderError (List V))

/-- An indexed provider with the requests made of it. -/
structure Source (V : Type v) where
  provider : IndexedProvider V
  requests : List Request

namespace Source

def single (s : Source V) (index : Nat) : Except ProviderError V × Source V :=
  (s.provider.single s.requests index, { s with requests := s.requests ++ [.single index] })

/-- Asks for `count` elements from `index` on, one at a time, up to the first failure. -/
def singles (s : Source V) : Nat → Nat → Except ProviderError (List V) × Source V
  | _, 0 => (.ok [], s)
  | index, count + 1 =>
    match s.single index with
    | (.error e, s) => (.error e, s)
    | (.ok v, s) =>
      match s.singles (index + 1) count with
      | (.error e, s) => (.error e, s)
      | (.ok vs, s) => (.ok (v :: vs), s)

/-- Asks for the elements from `start` up to `stop`, without it. -/
def range (s : Source V) (start stop : Nat) : Except ProviderError (List V) × Source V :=
  match s.provider.range with
  | some answer =>
    (answer s.requests start stop, { s with requests := s.requests ++ [.range start stop] })
  | none => s.singles start (stop - start)

end Source

end CacheLayer
