/-!
# Recency lists

`Recency K` lists keys with their weights, most recently used first, and keeps their total weight
beside them. `Recency.Sound` is what every operation keeps: no key is listed twice and the total is
the sum of the listed weights.
-/

namespace CacheLayer

/-- Keys with weights, most recently used first. -/
structure Recency (K : Type u) where
  /-- The listed keys with their weights; the head is the most recent. -/
  items : List (K × Nat)
  /-- The total weight of the listed keys. -/
  total : Nat
  deriving DecidableEq, Repr

namespace Recency

variable {K : Type u}

def empty : Recency K := ⟨[], 0⟩

instance : Inhabited (Recency K) := ⟨empty⟩

/-- The listed keys, most recent first. -/
def keys (r : Recency K) : List K := r.items.map Prod.fst

def size (r : Recency K) : Nat := r.items.length

variable [DecidableEq K]

/-- The weight listed for `k`. -/
def weight? (r : Recency K) (k : K) : Option Nat := (r.items.find? fun e => e.1 = k).map Prod.snd

def remove (r : Recency K) (k : K) : Recency K :=
  match r.weight? k with
  | some w => ⟨r.items.filter fun e => decide (e.1 ≠ k), r.total - w⟩
  | none => r

/-- Lists `k` at the front with weight `w`, in place of where it was listed. -/
def pushFront (r : Recency K) (k : K) (w : Nat) : Recency K :=
  let rest := r.remove k
  ⟨(k, w) :: rest.items, rest.total + w⟩

/-- Moves `k` to the front with its weight, if it is listed. -/
def moveToFront (r : Recency K) (k : K) : Recency K :=
  match r.weight? k with
  | some w => r.pushFront k w
  | none => r

/-- The least recently used key with its weight, and the list without it. -/
def popBack (r : Recency K) : Option ((K × Nat) × Recency K) :=
  r.items.getLast?.map fun e => (e, ⟨r.items.dropLast, r.total - e.2⟩)

/-- Pops keys off the back while `tooFull` holds, at most `fuel` of them; the popped keys are given
in the order in which they left. -/
def trim (tooFull : Recency K → Bool) : Nat → Recency K → Recency K × List K
  | 0, r => (r, [])
  | fuel + 1, r =>
    if tooFull r then
      match r.popBack with
      | some (e, rest) =>
        let out := trim tooFull fuel rest
        (out.1, e.1 :: out.2)
      | none => (r, [])
    else (r, [])

/-! ## Soundness -/

/-- No key is listed twice, and the total is the sum of the weights. -/
def Sound (r : Recency K) : Prop :=
  (r.items.map Prod.fst).Nodup ∧ r.total = r.items.foldr (fun e n => e.2 + n) 0

end Recency

end CacheLayer
