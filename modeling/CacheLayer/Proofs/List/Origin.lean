import CacheLayer.Proofs.List.Reading

/-!
# Where the elements of a lazy list come from

Whatever a provider does, whether it fails, gives other values than before or ranges of another length,
a list that asks for the element of an index keeps under that index what the provider gave for it.

* `Source.Produced` : the provider gave a value for an index, at that index's own place.
* `Serves`, `ask_serves` : what a request comes to, and that it starts with the missing index.
* `Stocked` : each element of a list is as a predicate tells for its index; `Stocked.takeIn`,
  `Stocked.takeInAll` : so it is when elements like that are taken in.
-/

namespace CacheLayer

variable {V : Type u}

def Request.first : Request → Nat
  | .single index => index
  | .range start _ => start

/-- The index after the last one. -/
def Request.stop : Request → Nat
  | .single index => index + 1
  | .range _ stop => stop

namespace Source

/-- The provider gave `v` for the index, alone or at its place in a range. -/
def Produced (s : Source V) (index : Nat) (v : V) : Prop :=
  (∃ before, before ++ [.single index] <+: s.requests ∧ s.provider.single before index = .ok v) ∨
  ∃ answer before start stop vs, s.provider.range = some answer ∧
    before ++ [.range start stop] <+: s.requests ∧ answer before start stop = .ok vs ∧
    start ≤ index ∧ vs[index - start]? = some v

theorem Produced.after {s : Source V} {index : Nat} {v : V} (h : s.Produced index v)
    (asked : List Request) : (s.after asked).Produced index v := by
  have hgrown : s.requests <+: (s.after asked).requests := List.prefix_append _ _
  rcases h with ⟨before, hasked, hv⟩ | ⟨answer, before, start, stop, vs, hrange, hasked, hvs, hv⟩
  · exact .inl ⟨before, hasked.trans hgrown, hv⟩
  · exact .inr ⟨answer, before, start, stop, vs, hrange, hasked.trans hgrown, hvs, hv⟩

theorem after_after (s : Source V) (asked asked' : List Request) :
    (s.after asked).after asked' = s.after (asked ++ asked') := by
  unfold after
  rw [List.append_assoc]

/-- One request was made in between. It was asked as it is, or index by index, as far as that went well,
where the provider does not know ranges. -/
def AskedOnce (s s' : Source V) (r : Request) : Prop :=
  ∃ asked, s' = s.after asked ∧ (asked = [r] ∨ s.provider.range = none ∧
    ∃ count, r.first + count ≤ r.stop ∧ asked = (List.range' r.first count).map .single)

/-- What a request comes to: the elements that it is answered with are those of its indices, in order. -/
structure Serves (s s' : Source V) (r : Request) (answer : Except ProviderError (List V)) : Prop where
  asked : s.AskedOnce s' r
  produced : ∀ vs, answer = .ok vs → ∀ n v, vs[n]? = some v → s'.Produced (r.first + n) v

theorem single_serves (s : Source V) (index : Nat) :
    s.Serves (s.single index).2 (.single index) ((s.single index).1.map fun v => [v]) := by
  refine ⟨⟨[.single index], rfl, .inl rfl⟩, fun vs hvs n v hv => ?_⟩
  have hanswer : (s.provider.single s.requests index).map (fun v => [v]) = .ok vs := hvs
  cases hsingle : s.provider.single s.requests index with
  | error e =>
    rw [hsingle] at hanswer
    cases hanswer
  | ok u =>
    rw [hsingle] at hanswer
    obtain rfl := Except.ok.inj hanswer
    obtain ⟨hn, rfl⟩ := List.getElem?_eq_some_iff.1 hv
    obtain rfl : n = 0 := by simpa using hn
    exact .inl ⟨s.requests, List.prefix_rfl, hsingle⟩

theorem singles_succ (s : Source V) (index count : Nat) :
    s.singles index (count + 1) =
      match s.provider.single s.requests index with
      | .error e => (.error e, s.after [.single index])
      | .ok v =>
        (((s.after [.single index]).singles (index + 1) count).1.map (v :: ·),
          ((s.after [.single index]).singles (index + 1) count).2) := by
  have hsingle : s.single index =
      (s.provider.single s.requests index, s.after [.single index]) := rfl
  rw [singles, hsingle]
  cases s.provider.single s.requests index with
  | error e => rfl
  | ok v =>
    dsimp only
    cases (s.after [.single index]).singles (index + 1) count with
    | mk rest s' => cases rest <;> rfl

/-- Elements are asked for in their order, up to the first failure. -/
theorem singles_after (s : Source V) (index count : Nat) :
    ∃ asked ≤ count, (s.singles index count).2 = s.after ((List.range' index asked).map .single) := by
  induction count generalizing s index with
  | zero =>
    refine ⟨0, Nat.le_refl 0, ?_⟩
    show s = s.after []
    unfold after
    rw [List.append_nil]
  | succ count ih =>
    rw [singles_succ]
    cases s.provider.single s.requests index with
    | error e => exact ⟨1, by omega, rfl⟩
    | ok v =>
      obtain ⟨asked, hle, hasked⟩ := ih (s.after [.single index]) (index + 1)
      refine ⟨asked + 1, by omega, ?_⟩
      dsimp only
      rw [hasked, after_after, List.range'_succ]
      rfl

theorem singles_produced (s : Source V) (index count : Nat) {vs : List V}
    (hvs : (s.singles index count).1 = .ok vs) {n : Nat} {v : V} (hv : vs[n]? = some v) :
    (s.singles index count).2.Produced (index + n) v := by
  induction count generalizing s index vs n with
  | zero =>
    obtain rfl := Except.ok.inj hvs
    cases hv
  | succ count ih =>
    rw [singles_succ] at hvs ⊢
    cases hfirst : s.provider.single s.requests index with
    | error e =>
      rw [hfirst] at hvs
      cases hvs
    | ok u =>
      rw [hfirst] at hvs
      dsimp only at hvs ⊢
      cases hrest : ((s.after [.single index]).singles (index + 1) count).1 with
      | error e =>
        rw [hrest] at hvs
        cases hvs
      | ok us =>
        rw [hrest] at hvs
        obtain rfl := Except.ok.inj hvs
        cases n with
        | zero =>
          obtain rfl := Option.some.inj hv
          have hasked : (s.after [.single index]).Produced index u :=
            .inl ⟨s.requests, List.prefix_rfl, hfirst⟩
          obtain ⟨asked, -, hlater⟩ := (s.after [.single index]).singles_after (index + 1) count
          rw [hlater]
          exact hasked.after _
        | succ n =>
          have hlater := ih _ _ hrest hv
          rwa [Nat.add_assoc, Nat.add_comm 1 n] at hlater

theorem range_serves (s : Source V) {start stop : Nat} (hle : start ≤ stop) :
    s.Serves (s.range start stop).2 (.range start stop) (s.range start stop).1 := by
  unfold range
  split
  · rename_i answer hrange
    refine ⟨⟨[.range start stop], rfl, .inl rfl⟩, fun vs hvs n v hv => ?_⟩
    refine .inr ⟨answer, s.requests, start, stop, vs, hrange, List.prefix_rfl, hvs,
      Nat.le_add_right start n, ?_⟩
    have hn : start + n - start = n := Nat.add_sub_cancel_left start n
    exact (congrArg (vs[·]?) hn).trans hv
  · rename_i hrange
    obtain ⟨asked, hasked, hafter⟩ := s.singles_after start (stop - start)
    refine ⟨⟨_, hafter, .inr ⟨hrange, asked, ?_, rfl⟩⟩,
      fun vs hvs n v hv => s.singles_produced start (stop - start) hvs hv⟩
    show start + asked ≤ stop
    omega

end Source

namespace LazyList

/-! ## Asking -/

theorem first_requestFor (l : LazyList V) (i : Nat) : (l.requestFor i).first = l.offset + i := by
  unfold requestFor
  cases l.strategy <;> rfl

theorem requestFor_bounds {l : LazyList V} (hpositive : 1 ≤ l.cacheSize) {i : Nat}
    (hi : i < l.length) :
    l.offset + i < (l.requestFor i).stop ∧ (l.requestFor i).stop ≤ l.offset + l.length ∧
      (l.requestFor i).stop ≤ l.offset + i + l.cacheSize := by
  unfold requestFor
  cases l.strategy with
  | singleFetch =>
    show l.offset + i < l.offset + i + 1 ∧ l.offset + i + 1 ≤ l.offset + l.length ∧
      l.offset + i + 1 ≤ l.offset + i + l.cacheSize
    omega
  | prefetchOnMiss =>
    show l.offset + i < l.offset + min (i + l.cacheSize) l.length ∧
      l.offset + min (i + l.cacheSize) l.length ≤ l.offset + l.length ∧
      l.offset + min (i + l.cacheSize) l.length ≤ l.offset + i + l.cacheSize
    omega

theorem ask_serves (l : LazyList V) (source : Source V) {i : Nat} (hi : i < l.length) :
    source.Serves (l.ask source i).2 (l.requestFor i) (l.ask source i).1 := by
  unfold ask requestFor
  cases l.strategy with
  | singleFetch => exact source.single_serves (l.offset + i)
  | prefetchOnMiss =>
    refine source.range_serves ?_
    omega

/-! ## Taking elements in -/

/-- The parts of a list that hold elements belong together, and each element is as `P` tells. -/
structure Stocked (l : LazyList V) (P : Nat → V → Prop) : Prop where
  hot : l.hot.Sound
  held : ∀ i, i ∈ l.hot.keys ↔ l.values.contains i = true
  origin : ∀ i s, l.Owns i s → P i s.value

variable {l l' : LazyList V} {P Q : Nat → V → Prop}

theorem Stocked.imp (h : l.Stocked P) (hPQ : ∀ i v, P i v → Q i v) : l.Stocked Q :=
  ⟨h.hot, h.held, fun i s howns => hPQ i s.value (h.origin i s howns)⟩

theorem retire_spec (l : LazyList V) (is : List Nat) :
    l.SameSettings (l.retire is) ∧ (l.retire is).reads = l.reads ∧ (l.retire is).hot = l.hot ∧
      (l.retire is).values = is.foldl Table.erase l.values ∧
      ∀ i s, (l.retire is).Owns i s → l.Owns i s := by
  induction is generalizing l with
  | nil => exact ⟨⟨rfl, rfl, rfl, rfl, rfl⟩, rfl, rfl, rfl, fun _ _ howns => howns⟩
  | cons i is ih =>
    rw [retire]
    split
    · rename_i hvalue
      have herase : l.values.erase i = l.values :=
        Table.erase_of_not_contains (by rw [Table.contains, hvalue]; rfl)
      rw [List.foldl_cons, herase]
      exact ih l
    · rename_i s hvalue
      obtain ⟨hsettings, hreads, hhot, hvalues, howns⟩ := ih
        { l with
          values := l.values.erase i
          heap := l.heap.retain i s
          soft := l.soft.insert i s
          metrics := { l.metrics with evictedByCapacity := l.metrics.evictedByCapacity + 1 } }
      have hcapacity := hsettings.capacity.trans (SoftHeap.capacity_retain l.heap i s)
      exact ⟨⟨hsettings.offset, hsettings.length, hsettings.cacheSize, hsettings.strategy, hcapacity⟩,
        hreads, hhot, hvalues, fun j t hj => owns_left hvalue (howns j t hj)⟩

theorem Stocked.takeIn (h : l.Stocked P) {i : Nat} {s : Shared V} (hs : P i s.value) :
    (l.takeIn i s).Stocked P ∧ l.SameSettings (l.takeIn i s) ∧ (l.takeIn i s).reads = l.reads := by
  have hpushed := h.hot.pushFront i 1
  unfold LazyList.takeIn
  dsimp only
  generalize hcut : Recency.trim (fun r => decide (l.cacheSize < r.size)) (l.hot.size + 1)
    (l.hot.pushFront i 1) = cut
  have hsound := hcut ▸ hpushed.trim (fun r => decide (l.cacheSize < r.size)) (l.hot.size + 1)
  have hmem := hcut ▸ hpushed.mem_keys_trim (fun r => decide (l.cacheSize < r.size)) (l.hot.size + 1)
  obtain ⟨hsettings, hreads, hhot, hvalues, howns⟩ := retire_spec
    { l with
      hot := cut.1
      soft := l.soft.erase i
      heap := (l.heap.release i).2
      values := l.values.insert i s } cut.2
  refine ⟨⟨hhot ▸ hsound, fun j => ?_, fun j t hj => ?_⟩,
    ⟨hsettings.offset, hsettings.length, hsettings.cacheSize, hsettings.strategy,
      hsettings.capacity⟩, hreads⟩
  · rw [hhot, hvalues, hmem, Recency.mem_keys_pushFront, h.held]
    dsimp only
    rw [Table.contains_foldl_erase, Table.contains_insert]
    simp [and_comm]
  · rcases howns j t hj with hvalue | hsoft
    · have hvalue : (l.values.insert i s).get? j = some t := hvalue
      rw [Table.get?_insert] at hvalue
      split at hvalue
      · rename_i hji
        rw [hji, ← Option.some.inj hvalue]
        exact hs
      · exact h.origin j t (.inl hvalue)
    · have hsoft : (l.soft.erase i).get? j = some t := hsoft
      rw [Table.get?_erase] at hsoft
      split at hsoft
      · cases hsoft
      · exact h.origin j t (.inr hsoft)

theorem Stocked.takeInAll (h : l.Stocked P) {items : List (Nat × Shared V)}
    (hitems : ∀ e ∈ items, P e.1 e.2.value) :
    (l.takeInAll items).Stocked P ∧ l.SameSettings (l.takeInAll items) ∧
      (l.takeInAll items).reads = l.reads := by
  induction items generalizing l with
  | nil => exact ⟨h, ⟨rfl, rfl, rfl, rfl, rfl⟩, rfl⟩
  | cons e items ih =>
    obtain ⟨i, s⟩ := e
    rw [List.forall_mem_cons] at hitems
    obtain ⟨hone, hsettings, hreads⟩ := h.takeIn hitems.1
    obtain ⟨hall, hsettings', hreads'⟩ := ih hone hitems.2
    exact ⟨hall, hsettings.trans hsettings', hreads'.trans hreads⟩

theorem Stocked.moveToFront (h : l.Stocked P) (i : Nat) :
    Stocked { l with hot := l.hot.moveToFront i } P :=
  ⟨h.hot.moveToFront i, fun j => (l.hot.mem_keys_moveToFront i j).trans (h.held j), h.origin⟩

theorem Stocked.drops (h : l.Stocked P) {w : World} (hdrops : l.Drops w l') : l'.Stocked P where
  hot := hdrops.hot ▸ h.hot
  held i := by
    rw [hdrops.hot, hdrops.values]
    exact h.held i
  origin i s howns := h.origin i s (hdrops.owns howns)

end LazyList

end CacheLayer
