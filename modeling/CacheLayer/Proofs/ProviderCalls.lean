import CacheLayer.Cache
import CacheLayer.Proofs.Overflow.Run

/-!
# How often providers are asked

A look-up goes down the layers and up again, and asks the provider of each layer that it finds nothing
below. A layer that asks one at a time looks below itself a second time before it asks, and so does
everything below it: a provider that failed, and whose failure was taken for a miss, is asked again.

* `Store.Descends` : the courses that a look-up under one layer more can take.
* `mostCalls` : a bound on the calls of each provider, which doubles with each layer that looks twice.
* `Cache.asked_get` : a look-up stays within the bound, and asks a provider again only after a failure
  that its layer took for a miss.
-/

namespace CacheLayer

variable {K : Type u} {V : Type v}

/-! ## What a provider is asked -/

def Note.asked? (level : Nat) : Note K V → Option K
  | .eviction _ => none
  | .call layer k => if layer = level then some k else none

/-- The layer of a number, counted from the backend; the outermost layer comes first. -/
def layerAt? : List (Layer K V) → Nat → Option (Layer K V)
  | [], _ => none
  | layer :: below, level => if level = below.length then some layer else layerAt? below level

/-- How often a layer looks below itself before it asks its provider, at most. -/
def FetchMode.looks : FetchMode → Nat
  | .concurrent => 1
  | .singleFlight _ => 2

theorem FetchMode.looks_pos (mode : FetchMode) : 0 < mode.looks := by
  cases mode with
  | concurrent => exact Nat.zero_lt_one
  | singleFlight stripes => exact Nat.zero_lt_two

/-- How often a look-up asks the provider of the layer of a number, at most. -/
def mostCalls : List (Layer K V) → Nat → Nat
  | [], _ => 0
  | layer :: below, level =>
    layer.fetchMode.looks * mostCalls below level + if level = below.length then 1 else 0

theorem mostCalls_of_length_le (layers : List (Layer K V)) {level : Nat}
    (h : layers.length ≤ level) : mostCalls layers level = 0 := by
  induction layers with
  | nil => rfl
  | cons layer below ih =>
    rw [List.length_cons] at h
    rw [mostCalls, ih (by omega), if_neg (by omega)]
    rfl

theorem mostCalls_le_one {layers : List (Layer K V)}
    (h : ∀ layer ∈ layers, layer.fetchMode = .concurrent) (level : Nat) :
    mostCalls layers level ≤ 1 := by
  induction layers with
  | nil => exact Nat.zero_le 1
  | cons layer below ih =>
    have hbelow := ih fun other hother => h other (by simp [hother])
    have hlooks : layer.fetchMode.looks = 1 := by rw [h layer (by simp), FetchMode.looks]
    rw [mostCalls, hlooks, Nat.one_mul]
    split
    · have hnone : mostCalls below level = 0 := mostCalls_of_length_le below (by omega)
      omega
    · exact hbelow

/-- The provider of the layer of a number fails for `k`, after it was asked for other keys, and the
layer takes the failure for a miss. -/
def Misses (layers : List (Layer K V)) (level : Nat) (k : K) (asked : List K) : Prop :=
  ∃ layer e, layerAt? layers level = some layer ∧ layer.provider.provide asked k = .error e ∧
    layer.failurePolicy.tolerates e = true

theorem layerAt?_of_length_le (layers : List (Layer K V)) {level : Nat}
    (h : layers.length ≤ level) : layerAt? layers level = none := by
  induction layers with
  | nil => rfl
  | cons layer below ih =>
    rw [List.length_cons] at h
    rw [layerAt?, if_neg (by omega), ih (by omega)]

/-- Whatever lies around, the layer of a number is the same. -/
theorem Misses.cons {below : List (Layer K V)} {level : Nat} {k : K} {asked : List K}
    (h : Misses below level k asked) (layer : Layer K V) : Misses (layer :: below) level k asked := by
  obtain ⟨inner, e, hinner, hfails⟩ := h
  have hlevel : level ≠ below.length := by
    intro hlevel
    rw [layerAt?_of_length_le below (by omega)] at hinner
    cases hinner
  exact ⟨inner, e, (if_neg hlevel).trans hinner, hfails⟩

namespace Store

variable [DecidableEq K]

/-- The courses of a look-up under one layer more: the value is found below at the first or at the
second look, or the provider is asked for it. -/
inductive Descends (layer : Layer K V) (below : List (Layer K V)) (w : World) (k : K)
    (s : Store K V) : Step (Store K V) (Note K V) (Found V) → Prop
  | found (hfound : (s.get w k below).answer ≠ .ok none) :
    Descends layer below w k s (s.get w k below)
  | asked (hmode : layer.fetchMode = .concurrent) (hmissed : (s.get w k below).answer = .ok none) :
    Descends layer below w k s
      ((s.get w k below).bind fun _ s w => s.populate layer below.length w k)
  | foundAgain {stripes : Nat} (hmode : layer.fetchMode = .singleFlight stripes)
    (hmissed : (s.get w k below).answer = .ok none)
    (hfound : ((s.get w k below).state.get (s.get w k below).world k below).answer ≠ .ok none) :
    Descends layer below w k s ((s.get w k below).bind fun _ s w => s.get w k below)
  | askedAgain {stripes : Nat} (hmode : layer.fetchMode = .singleFlight stripes)
    (hmissed : (s.get w k below).answer = .ok none)
    (hagain : ((s.get w k below).state.get (s.get w k below).world k below).answer = .ok none) :
    Descends layer below w k s ((s.get w k below).bind fun _ s w =>
      (s.get w k below).bind fun _ s w => s.populate layer below.length w k)

omit [DecidableEq K] in
theorem bind_congr {x : Step (Store K V) (Note K V) (Found V)}
    {f g : Found V → Store K V → World → Step (Store K V) (Note K V) (Found V)}
    (h : f x.answer x.state x.world = g x.answer x.state x.world) : x.bind f = x.bind g := by
  unfold Step.bind
  rw [h]

omit [DecidableEq K] in
theorem bind_found {x : Step (Store K V) (Note K V) (Found V)}
    {f : Found V → Store K V → World → Step (Store K V) (Note K V) (Found V)}
    (h : f x.answer x.state x.world = .pure x.answer x.state x.world) : x.bind f = x := by
  unfold Step.bind
  rw [h]
  show { x with log := x.log ++ [] } = x
  rw [List.append_nil]

theorem get_descends (layer : Layer K V) (below : List (Layer K V)) (w : World) (k : K)
    (s : Store K V) : Descends layer below w k s (s.get w k (layer :: below)) := by
  by_cases hmissed : (s.get w k below).answer = .ok none
  · cases hmode : layer.fetchMode with
    | concurrent =>
      have hasks : s.get w k (layer :: below) =
          (s.get w k below).bind fun _ s w => s.populate layer below.length w k :=
        bind_congr (by rw [hmissed, hmode])
      exact hasks ▸ .asked hmode hmissed
    | singleFlight stripes =>
      by_cases hagain :
          ((s.get w k below).state.get (s.get w k below).world k below).answer = .ok none
      · have hasks : s.get w k (layer :: below) = (s.get w k below).bind fun _ s w =>
            (s.get w k below).bind fun _ s w => s.populate layer below.length w k :=
          bind_congr (by rw [hmissed, hmode]; exact bind_congr (by rw [hagain]))
        exact hasks ▸ .askedAgain hmode hmissed hagain
      · have hfinds : s.get w k (layer :: below) =
            (s.get w k below).bind fun _ s w => s.get w k below := by
          refine bind_congr ?_
          rw [hmissed, hmode]
          refine bind_found ?_
          split
          · rename_i hnone
            exact absurd hnone hagain
          · rfl
        exact hfinds ▸ .foundAgain hmode hmissed hagain
  · have hfinds : s.get w k (layer :: below) = s.get w k below := by
      refine bind_found ?_
      split
      · rename_i hnone _
        exact absurd hnone hmissed
      · rename_i hnone _
        exact absurd hnone hmissed
      · rfl
    exact hfinds ▸ .found hmissed

/-! ## Counting the calls -/

/-- The provider of the layer of a number was asked for `k`, so many times in a row. Each time but the
last `fails` held of what it was asked before, and the last time too if nothing was found. -/
structure Asks (fails : List K → Prop) (level : Nat) (k : K) (s : Store K V)
    (out : Step (Store K V) (Note K V) (Found V)) (n : Nat) : Prop where
  keys : out.state.asked level = s.asked level ++ List.replicate n k
  notes : out.log.filterMap (Note.asked? level) = List.replicate n k
  again : ∀ j < n, j + 1 < n ∨ out.answer = .ok none →
    fails (s.asked level ++ List.replicate j k)

variable {fails : List K → Prop} {level : Nat} {k : K} {s : Store K V}

omit [DecidableEq K] in
theorem Asks.bind {x : Step (Store K V) (Note K V) (Found V)}
    {f : Found V → Store K V → World → Step (Store K V) (Note K V) (Found V)} {n m : Nat}
    (h : Asks fails level k s x n) (hmissed : x.answer = .ok none)
    (h' : Asks fails level k x.state (f x.answer x.state x.world) m) :
    Asks fails level k s (x.bind f) (n + m) where
  keys := by
    rw [← List.replicate_append_replicate, ← List.append_assoc, ← h.keys]
    exact h'.keys
  notes := by
    rw [← List.replicate_append_replicate, ← h.notes, ← h'.notes]
    exact List.filterMap_append
  again := by
    intro j hj hmore
    by_cases hfirst : j < n
    · exact h.again j hfirst (.inr hmissed)
    · have hlater := h'.again (j - n) (by omega) (by
        rcases hmore with hmore | hnone
        · exact .inl (by omega)
        · exact .inr hnone)
      rw [h.keys, List.append_assoc, List.replicate_append_replicate] at hlater
      rwa [show n + (j - n) = j by omega] at hlater

theorem asks_backend (w : World) :
    Asks fails level k s (s.get w k []) 0 where
  keys := (List.append_nil _).symm
  notes := by
    show ((s.backend.get w k).log.map Note.eviction).filterMap _ = []
    rw [List.filterMap_map]
    exact List.filterMap_eq_nil_iff.2 fun _ _ => rfl
  again := nofun

omit [DecidableEq K] in
theorem asked_call (s : Store K V) (own level : Nat) (k : K) :
    Store.asked { s with calls := s.calls ++ [(own, k)] } level =
      s.asked level ++ if own = level then [k] else [] := by
  unfold asked
  rw [List.filterMap_append]
  by_cases hown : own = level
  · simp [hown]
  · simp [hown]

theorem populate_asked (layer : Layer K V) (own level : Nat) (w : World) (k : K) (s : Store K V) :
    (s.populate layer own w k).state.asked level =
      s.asked level ++ if own = level then [k] else [] := by
  rw [← asked_call]
  unfold populate
  dsimp only
  split <;> rfl

theorem populate_notes (layer : Layer K V) (own level : Nat) (w : World) (k : K) (s : Store K V) :
    (s.populate layer own w k).log.filterMap (Note.asked? level) =
      if own = level then [k] else [] := by
  have hcall (rest : List (Note K V)) (hrest : rest.filterMap (Note.asked? level) = []) :
      (.call own k :: rest).filterMap (Note.asked? level) = if own = level then [k] else [] := by
    by_cases hown : own = level
    · simp [Note.asked?, hown, hrest]
    · simp [Note.asked?, hown, hrest]
  unfold populate
  dsimp only
  split
  · refine hcall _ ?_
    unfold onBackend Step.mapLog
    rw [List.filterMap_map]
    exact List.filterMap_eq_nil_iff.2 fun _ _ => rfl
  · exact hcall [] rfl

theorem populate_missed {layer : Layer K V} {own : Nat} {w : World} {k : K} {s : Store K V}
    (h : (s.populate layer own w k).answer = .ok none) :
    ∃ e, layer.provider.provide (s.asked own) k = .error e ∧
      layer.failurePolicy.tolerates e = true := by
  unfold populate at h
  dsimp only at h
  split at h
  · cases h
  · rename_i e hprovide
    refine ⟨e, hprovide, ?_⟩
    by_contra hstrict
    dsimp only at h
    rw [if_neg hstrict] at h
    cases h

omit [DecidableEq K] in
theorem Asks.mono {fails' : List K → Prop} {out : Step (Store K V) (Note K V) (Found V)} {n : Nat}
    (h : Asks fails level k s out n) (hfails : ∀ asked, fails asked → fails' asked) :
    Asks fails' level k s out n :=
  ⟨h.keys, h.notes, fun j hj hmore => hfails _ (h.again j hj hmore)⟩

theorem populate_asks (layer : Layer K V) (below : List (Layer K V)) (level : Nat) (k : K)
    (s : Store K V) (w : World) :
    Asks (Misses (layer :: below) level k) level k s (s.populate layer below.length w k)
      (if level = below.length then 1 else 0) := by
  have hreplicate : (if below.length = level then [k] else []) =
      List.replicate (if level = below.length then 1 else 0) k := by
    by_cases hown : level = below.length
    · simp [hown]
    · simp [hown, Ne.symm hown]
  refine ⟨by rw [populate_asked, hreplicate], by rw [populate_notes, hreplicate], ?_⟩
  intro j hj hmore
  by_cases hown : level = below.length
  · rw [if_pos hown] at hj hmore
    obtain rfl : j = 0 := by omega
    rcases hmore with hmore | hnone
    · omega
    · obtain ⟨e, hprovide, htolerated⟩ := populate_missed hnone
      rw [List.replicate_zero, List.append_nil, hown]
      exact ⟨layer, e, if_pos rfl, hprovide, htolerated⟩
  · rw [if_neg hown] at hj
    omega

/-- A look-up asks a provider within the bound, and again only after failures taken for misses. -/
theorem get_asks (layers : List (Layer K V)) (level : Nat) (k : K) (s : Store K V) (w : World) :
    ∃ n ≤ mostCalls layers level,
      Asks (Misses layers level k) level k s (s.get w k layers) n := by
  induction layers generalizing s w with
  | nil => exact ⟨0, Nat.le_refl 0, asks_backend w⟩
  | cons layer below ih =>
    have hbelow (s : Store K V) (w : World) : ∃ n ≤ mostCalls below level,
        Asks (Misses (layer :: below) level k) level k s (s.get w k below) n := by
      obtain ⟨n, hn, hasks⟩ := ih s w
      exact ⟨n, hn, hasks.mono fun _ hmisses => hmisses.cons layer⟩
    have hown := populate_asks layer below level k
    obtain ⟨n, hn, hfirst⟩ := hbelow s w
    have hdescends := get_descends layer below w k s
    generalize s.get w k (layer :: below) = out at hdescends ⊢
    rw [mostCalls]
    cases hdescends with
    | found hfound =>
      have hlooks := Nat.le_mul_of_pos_left (mostCalls below level) layer.fetchMode.looks_pos
      exact ⟨n, by omega, hfirst⟩
    | asked hmode hmissed =>
      rw [hmode, FetchMode.looks]
      exact ⟨_, by omega, hfirst.bind hmissed (hown _ _)⟩
    | foundAgain hmode hmissed hfound =>
      obtain ⟨m, hm, hsecond⟩ := hbelow (s.get w k below).state (s.get w k below).world
      rw [hmode, FetchMode.looks]
      exact ⟨n + m, by omega, hfirst.bind hmissed hsecond⟩
    | askedAgain hmode hmissed hagain =>
      obtain ⟨m, hm, hsecond⟩ := hbelow (s.get w k below).state (s.get w k below).world
      rw [hmode, FetchMode.looks]
      exact ⟨_, by omega, hfirst.bind hmissed (hsecond.bind hagain (hown _ _))⟩

end Store

namespace Cache

/-- A look-up asks the provider of a layer for its key alone, so many times in a row: at most twice as
often for each layer around that looks twice, and again only where the provider failed and its layer
took the failure for a miss. A provider that gave a value, or failed otherwise, is not asked again. -/
theorem asked_get [DecidableEq K] (c : Cache K V) (w : World) (k : K) (level : Nat) :
    ∃ n ≤ mostCalls c.layers level,
      (c.get w k).state.store.asked level = c.store.asked level ++ List.replicate n k ∧
      (c.get w k).log.filterMap (Note.asked? level) = List.replicate n k ∧
      (∀ j, j + 1 < n → Misses c.layers level k (c.store.asked level ++ List.replicate j k)) ∧
      (¬ Misses c.layers level k (c.store.asked level) → n ≤ 1) ∧
      ((∀ layer ∈ c.layers, layer.fetchMode = .concurrent) → n ≤ 1) := by
  obtain ⟨n, hmost, hasks⟩ := Store.get_asks c.layers level k c.store w
  have hagain (j : Nat) (hj : j + 1 < n) := hasks.again j (by omega) (.inl hj)
  refine ⟨n, hmost, hasks.keys, hasks.notes, hagain, fun hfirst => ?_, fun hmodes => ?_⟩
  · by_contra hmore
    have hmissed := hagain 0 (by omega)
    rw [List.replicate_zero, List.append_nil] at hmissed
    exact hfirst hmissed
  · exact Nat.le_trans hmost (mostCalls_le_one hmodes level)

/-- A layer that looks twice over one whose source is down, over a cache in memory. -/
def overFailing : Cache Nat UInt8 :=
  ((plain (.volatile (.make "pair" 4 UInt64.ofNat none none 0))).populating
    (.make ⟨fun _ _ => .error ⟨.unavailable, "down", none⟩⟩ .concurrent .tolerateUnavailable)).populating
    (.make ⟨fun _ _ => .ok 7⟩ (.singleFlight 1) .tolerateUnavailable)

/-- The provider that is down is asked again in one look-up. -/
theorem asked_get_twice : ¬ ∀ (c : Cache Nat UInt8) (w : World) (k level : Nat),
    ∃ n ≤ 1, (c.get w k).state.store.asked level = c.store.asked level ++ List.replicate n k := by
  intro h
  obtain ⟨n, hn, hasked⟩ := h overFailing bareWorld 1 0
  have htwice : (overFailing.get bareWorld 1).state.store.asked 0 = [1, 1] := by decide
  have hlength := congrArg List.length (htwice.symm.trans hasked)
  rw [List.length_append, List.length_replicate] at hlength
  have hempty : overFailing.store.asked 0 = [] := rfl
  rw [hempty] at hlength
  simp at hlength
  omega

end Cache

end CacheLayer
