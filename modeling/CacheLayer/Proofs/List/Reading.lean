import CacheLayer.Proofs.List.Forgetting

/-!
# Reading a lazy list

A list whose provider has all of its elements is read by index. What the list holds and what its heap
retains are together one list of the most recently used indices, and the provider is asked for an index
exactly when it is not among them.

* `Forgets` : handles of dead objects are forgotten, which changes nothing else.
* `Sound.get_of_mem`, `Sound.get_of_not_mem` : one read.
* `Follows.get` : what every read keeps.
* `asks_iff_not_recent` : when the provider is asked, after any reads.
-/

namespace CacheLayer

variable {V : Type u}

/-- A provider that has the elements from `first` up to `stop`, whatever it was asked before. -/
structure IndexedProvider.Covers (p : IndexedProvider V) (first stop : Nat) : Prop where
  single : ∀ requests index, first ≤ index → index < stop → ∃ v, p.single requests index = .ok v
  range : ∀ answer, p.range = some answer → ∀ requests start last, first ≤ start → start < last →
    last ≤ stop → ∃ vs, answer requests start last = .ok vs ∧ last - start ≤ vs.length

def Source.after (s : Source V) (asked : List Request) : Source V :=
  { s with requests := s.requests ++ asked }

theorem Source.singles_of_covers {s : Source V} {first stop : Nat}
    (hs : s.provider.Covers first stop) {index count : Nat} (hfirst : first ≤ index)
    (hstop : index + count ≤ stop) :
    ∃ vs asked, s.singles index count = (.ok vs, s.after asked) ∧ vs.length = count ∧
      asked.length = count := by
  induction count generalizing s index with
  | zero =>
    refine ⟨[], [], ?_, rfl, rfl⟩
    unfold singles after
    rw [List.append_nil]
  | succ count ih =>
    obtain ⟨v, hv⟩ := hs.single s.requests index hfirst (by omega)
    have hs' : (s.after [.single index]).provider.Covers first stop := hs
    have hfirst' : first ≤ index + 1 := by omega
    have hstop' : index + 1 + count ≤ stop := by omega
    obtain ⟨vs, asked, hsingles, hvs, hasked⟩ := ih hs' hfirst' hstop'
    have hsingle : s.single index = (.ok v, s.after [.single index]) := by rw [Source.single, hv]; rfl
    refine ⟨v :: vs, .single index :: asked, ?_, by rw [List.length_cons, hvs],
      by rw [List.length_cons, hasked]⟩
    rw [singles, hsingle]
    dsimp only
    rw [hsingles]
    unfold after
    rw [List.append_assoc]
    rfl

theorem Source.range_of_covers {s : Source V} {first stop : Nat}
    (hs : s.provider.Covers first stop) {start last : Nat} (hfirst : first ≤ start)
    (hsome : start < last) (hstop : last ≤ stop) :
    ∃ vs asked, s.range start last = (.ok vs, s.after asked) ∧ last - start ≤ vs.length ∧
      asked ≠ [] := by
  unfold range
  split
  · rename_i answer hrange
    obtain ⟨vs, hanswer, hvs⟩ := hs.range answer hrange s.requests start last hfirst hsome hstop
    refine ⟨vs, [.range start last], ?_, hvs, List.cons_ne_nil _ _⟩
    rw [hanswer]
    rfl
  · obtain ⟨vs, asked, hsingles, hvs, hasked⟩ :=
      singles_of_covers hs hfirst (show start + (last - start) ≤ stop by omega)
    refine ⟨vs, asked, hsingles, Nat.le_of_eq hvs.symm, ?_⟩
    rw [← List.length_pos_iff]
    omega

namespace LazyList

/-! ## What a list forgets -/

/-- `l'` is `l` without some handles of what the heap does not retain. -/
structure Forgets (l l' : LazyList V) : Prop where
  settings : l.SameSettings l'
  hot : l'.hot = l.hot
  values : l'.values = l.values
  order : l'.heap.order = l.heap.order
  retained : l'.heap.retained = l.heap.retained
  soft : ∀ i s, l'.soft.get? i = some s → l.soft.get? i = some s
  kept : ∀ i, i ∈ l.heap.order.keys → l'.soft.get? i = l.soft.get? i

theorem Forgets.trans {l l' l'' : LazyList V} (h : l.Forgets l') (h' : l'.Forgets l'') :
    l.Forgets l'' where
  settings := h.settings.trans h'.settings
  hot := h'.hot.trans h.hot
  values := h'.values.trans h.values
  order := h'.order.trans h.order
  retained := h'.retained.trans h.retained
  soft i s hsoft := h.soft i s (h'.soft i s hsoft)
  kept i hi := (h'.kept i (h.order ▸ hi)).trans (h.kept i hi)

theorem forgets_metrics (l : LazyList V) (metrics : Metrics) : l.Forgets { l with metrics } :=
  ⟨⟨rfl, rfl, rfl, rfl, rfl⟩, rfl, rfl, rfl, rfl, fun _ _ hsoft => hsoft, fun _ _ => rfl⟩

theorem Forgets.recent {l l' : LazyList V} (h : l.Forgets l') : l'.recent = l.recent := by
  unfold LazyList.recent
  rw [h.hot, h.order]

theorem Forgets.uses {l l' : LazyList V} (h : l.Forgets l') : l.Uses [] l' :=
  ⟨h.settings, h.recent⟩

theorem Forgets.owns {l l' : LazyList V} (h : l.Forgets l') {i : Nat} {s : Shared V}
    (howns : l'.Owns i s) : l.Owns i s := by
  rcases howns with hvalue | hsoft
  · exact .inl (h.values ▸ hvalue)
  · exact .inr (h.soft i s hsoft)

theorem Sound.forgets {l l' : LazyList V} {w : World} (h : l.Sound w) (hf : l.Forgets l') :
    l'.Sound w where
  hot := hf.hot ▸ h.hot
  values i := by rw [hf.hot, hf.values]; exact h.values i
  order := hf.order ▸ h.order
  retained i := by rw [hf.order, hf.retained]; exact h.retained i
  tied i s hretained := by
    rw [hf.retained] at hretained
    rw [hf.kept i ((h.retained i).2 (Table.contains_of_get? hretained))]
    exact h.tied i s hretained
  apart i s hsoft := by rw [hf.values]; exact h.apart i s (hf.soft i s hsoft)
  names i s j t hi hj hid := h.names i s j t (hf.owns hi) (hf.owns hj) hid
  made i s hi := h.made i s (hf.owns hi)
  positive := hf.settings.cacheSize ▸ h.positive
  hotFits := by rw [hf.hot, hf.settings.cacheSize]; exact h.hotFits
  heapFits := by rw [hf.order, hf.settings.capacity]; exact h.heapFits
  full hsome := by
    rw [hf.order] at hsome
    rw [hf.hot, hf.settings.cacheSize]
    exact h.full hsome
  older := h.older

theorem Sound.forgets_of_drops {l l' : LazyList V} {w : World} (h : l.Sound w)
    (hdrops : l.Drops w l') : l.Forgets l' := by
  refine ⟨hdrops.settings, hdrops.hot, hdrops.values, hdrops.order, hdrops.retained, hdrops.soft,
    fun i hi => ?_⟩
  obtain ⟨s, -, hsoft⟩ := h.soft_of_mem hi
  rw [hsoft]
  exact hdrops.kept i s hsoft ((h.alive_iff hsoft).2 hi)

theorem Sound.sweep {l : LazyList V} {w : World} (h : l.Sound w) : l.Forgets (l.sweep w) :=
  h.forgets_of_drops (l.sweep_drops w)

/-! ## Looking up -/

theorem Sound.moveToFront {l : LazyList V} {w : World} (h : l.Sound w) {i : Nat}
    (hi : i ∈ l.hot.keys) :
    let moved := { l with hot := l.hot.moveToFront i }
    moved.Sound w ∧ l.Uses [i] moved := by
  intro moved
  have hkeys : moved.hot.keys = i :: l.hot.keys.filter fun j => decide (j ≠ i) :=
    Recency.keys_moveToFront hi
  have hlength : moved.hot.keys.length = l.hot.keys.length := by
    rw [Recency.length_keys, Recency.length_keys]
    exact Recency.size_moveToFront h.hot i
  have hmem (j : Nat) : j ∈ moved.hot.keys ↔ j ∈ l.hot.keys := l.hot.mem_keys_moveToFront i j
  have hheap : i ∉ l.heap.order.keys := fun hheap => h.not_mem_hot hheap hi
  have hsound : moved.Sound w :=
    ⟨⟨h.hot.moveToFront i, fun j => (hmem j).trans (h.values j), h.order, h.retained, h.tied,
      h.apart, h.names, h.made⟩, h.positive, hlength ▸ h.hotFits, h.heapFits,
      fun hsome => hlength.trans (h.full hsome), h.older⟩
  refine ⟨hsound, ⟨rfl, rfl, rfl, rfl, rfl⟩, ?_⟩
  have hrecent : moved.recent = i :: l.recent.filter fun j => decide (j ≠ i) := by
    unfold recent
    rw [hkeys, List.filter_append, Recency.filter_ne_of_not_mem hheap, List.cons_append]
  have hfits : moved.recent.length ≤ l.room := hsound.length_recent_le
  rw [List.foldl_cons, List.foldl_nil, touch, ← hrecent, List.take_of_length_le hfits]

theorem Sound.lookUp_of_mem {l : LazyList V} {w : World} (h : l.Sound w) {i : Nat}
    (hi : i ∈ l.recent) :
    ∃ s l', l.lookUp w i = (some s, l') ∧ l'.Sound w ∧ l.Uses [i] l' := by
  rcases List.mem_append.1 hi with hhot | hheap
  · obtain ⟨s, hvalue⟩ := h.value_of_mem hhot
    refine ⟨s, { l with hot := l.hot.moveToFront i }, ?_, h.moveToFront hhot⟩
    rw [lookUp, hvalue]
  · obtain ⟨s, -, hsoft⟩ := h.soft_of_mem hheap
    have halive : l.alive w s = true := (h.alive_iff hsoft).2 hheap
    have howns : l.Owns i s := .inr hsoft
    refine ⟨s, l.takeIn i s, ?_, h.takeIn (fun j t hj hid => h.names j t i s hj howns hid)
      (h.made i s howns)⟩
    rw [lookUp, h.apart i s hsoft]
    dsimp only
    rw [hsoft]
    dsimp only
    rw [if_pos halive, takeIn_erased]

theorem Sound.lookUp_of_not_mem {l : LazyList V} {w : World} (h : l.Sound w) {i : Nat}
    (hi : i ∉ l.recent) : ∃ l', l.lookUp w i = (none, l') ∧ l.Forgets l' := by
  cases hlookUp : l.lookUp w i with
  | mk found l' =>
    cases found with
    | some s =>
      rcases (lookUp_some hlookUp).1 with hvalue | ⟨hsoft, halive⟩
      · exact (hi (List.mem_append_left _ ((h.values i).2 (Table.contains_of_get? hvalue)))).elim
      · exact (hi (List.mem_append_right _ ((h.alive_iff hsoft).1 halive))).elim
    | none => exact ⟨l', rfl, h.forgets_of_drops (lookUp_none hlookUp).2.2⟩

/-! ## Fetching -/

def wanted (l : LazyList V) (i : Nat) : Nat :=
  match l.strategy with
  | .singleFetch => 1
  | .prefetchOnMiss => min (i + l.cacheSize) l.length - i

/-- The uses of a read that misses, in order: with a run of elements its first one is used again at
the end. -/
def usedOnMiss (l : LazyList V) (i : Nat) : List Nat :=
  match l.strategy with
  | .singleFetch => [i]
  | .prefetchOnMiss => List.range' i (l.wanted i) ++ [i]

theorem foldl_usedOnMiss (l : LazyList V) (i room : Nat) (recent : List Nat) :
    (l.usedOnMiss i).foldl (touch room) recent =
      (List.range' i (l.wanted i) ++ [i]).foldl (touch room) recent := by
  unfold usedOnMiss wanted
  cases l.strategy with
  | singleFetch => exact (touch_touch room recent i).symm
  | prefetchOnMiss => rfl

theorem Sound.wanted_bounds {l : LazyList V} {w : World} (h : l.Sound w) {i : Nat}
    (hi : i < l.length) : 0 < l.wanted i ∧ l.wanted i ≤ l.cacheSize := by
  have hpositive := h.positive
  unfold wanted
  split <;> omega

theorem Sound.ask {l : LazyList V} {w : World} (h : l.Sound w) {source : Source V}
    (hsource : source.provider.Covers l.offset (l.offset + l.length)) {i : Nat}
    (hi : i < l.length) :
    ∃ vs asked, l.ask source i = (.ok vs, source.after asked) ∧ l.wanted i ≤ vs.length ∧
      asked ≠ [] := by
  have hpositive := h.positive
  unfold LazyList.ask requestFor wanted
  cases l.strategy with
  | singleFetch =>
    obtain ⟨v, hv⟩ := hsource.single source.requests (l.offset + i) (by omega) (by omega)
    refine ⟨[v], [.single (l.offset + i)], ?_, Nat.le_refl 1, List.cons_ne_nil _ _⟩
    dsimp only [Source.single]
    rw [hv]
    rfl
  | prefetchOnMiss =>
    have hfirst : l.offset ≤ l.offset + i := by omega
    have hsome : l.offset + i < l.offset + min (i + l.cacheSize) l.length := by omega
    have hstop : l.offset + min (i + l.cacheSize) l.length ≤ l.offset + l.length := by omega
    obtain ⟨vs, asked, hrange, hvs, hasked⟩ := Source.range_of_covers hsource hfirst hsome hstop
    exact ⟨vs, asked, hrange, by dsimp only; omega, hasked⟩

theorem length_shareAll (w : World) (vs : List V) : (shareAll w vs).1.length = vs.length := by
  induction vs generalizing w with
  | nil => rfl
  | cons v vs ih => exact congrArg (· + 1) (ih (w.share v).2)

/-- Taking new elements in, one after the other, uses their indices in that order. -/
theorem Sound.takeInAll {l : LazyList V} {w : World} (h : l.Sound w) (vs : List V) (i : Nat) :
    let shared := shareAll w vs
    let l' := l.takeInAll ((List.range' i vs.length).zip shared.1)
    l'.Sound shared.2 ∧ l.Uses (List.range' i vs.length) l' := by
  induction vs generalizing l w i with
  | nil => exact ⟨h, ⟨rfl, rfl, rfl, rfl, rfl⟩, rfl⟩
  | cons v vs ih =>
    -- the identity was not given out before, so that the new object belongs to no index yet
    have hlater : l.Sound (w.share v).2 := h.later rfl (Nat.le_succ _)
    have hnot : (w.share v).2.holds w.nextId = false := by
      rw [← Bool.not_eq_true]
      exact fun hheld => Nat.lt_irrefl _ (h.older w.nextId hheld)
    have hown (j : Nat) (t : Shared V) (hj : l.Owns j t) (hid : t.id = w.nextId) : j = i := by
      have hlt := (h.made j t hj).1
      omega
    obtain ⟨hsound, huses⟩ := hlater.takeIn (s := (w.share v).1) hown ⟨Nat.lt_succ_self _, hnot⟩
    obtain ⟨hsounds, husesAll⟩ := ih hsound (i + 1)
    exact ⟨hsounds, huses.trans husesAll⟩

theorem Sound.fetched {l : LazyList V} {w : World} (h : l.Sound w) {i : Nat} (hi : i < l.length)
    {vs : List V} (hvs : vs.length = l.wanted i) :
    let shared := shareAll w vs
    let full := l.takeInAll ((List.range' i vs.length).zip shared.1)
    let l' := { full with hot := full.hot.moveToFront i }
    l'.Sound shared.2 ∧ l.Uses (l.usedOnMiss i) l' := by
  intro shared full l'
  obtain ⟨hpositive, hwanted⟩ := h.wanted_bounds hi
  obtain ⟨hfull, huses⟩ : full.Sound shared.2 ∧ l.Uses (List.range' i vs.length) full :=
    h.takeInAll vs i
  -- the other elements push `i` back, but not off the held ones
  have hhot : i ∈ full.hot.keys := by
    have hroom : l.cacheSize ≤ l.room := Nat.le_add_right _ _
    rw [hfull.keys_hot, huses.recent, huses.settings.cacheSize]
    exact mem_take_run l.recent (by omega) (by omega) hroom
  obtain ⟨hmoved, hused⟩ := hfull.moveToFront hhot
  refine ⟨hmoved, ?_⟩
  have hall : l.Uses (List.range' i vs.length ++ [i]) l' := huses.trans hused
  exact ⟨hall.settings, by rw [hall.recent, foldl_usedOnMiss, hvs]⟩

/-- What a read does once its miss is counted. -/
def fetch (l : LazyList V) (w : World) (source : Source V) (i : Nat) :
    Change V (Except CacheError (Shared V)) :=
  match l.ask source i with
  | (.error e, source) => ⟨.error (.provider e), l, w, source, [l.requestFor i]⟩
  | (.ok vs, source) =>
    let (shared, w) := shareAll w (vs.take (l.wanted i))
    let l' := l.takeInAll ((List.range' i shared.length).zip shared)
    let l' := { l' with hot := l'.hot.moveToFront i }
    match shared with
    | s :: _ => ⟨.ok s, l', w, source, [l.requestFor i]⟩
    | [] => ⟨.error (noElement i), l', w, source, [l.requestFor i]⟩

theorem get_of_lookUp_some {l l' : LazyList V} {w : World} {i : Nat} {s : Shared V}
    (hi : i < l.length) (h : (l.sweep w).lookUp w i = (some s, l')) (source : Source V) :
    l.get w source i = ⟨.ok s, { l' with metrics := l'.metrics.hit }, w, source, []⟩ := by
  rw [LazyList.get, if_neg (Nat.not_le.2 hi), h]

theorem get_of_lookUp_none {l l' : LazyList V} {w : World} {i : Nat} (hi : i < l.length)
    (h : (l.sweep w).lookUp w i = (none, l')) (source : Source V) :
    l.get w source i = fetch { l' with metrics := l'.metrics.miss } w source i := by
  rw [LazyList.get, if_neg (Nat.not_le.2 hi), h]
  rfl

theorem Sound.fetch {l : LazyList V} {w : World} (h : l.Sound w) {source : Source V}
    (hsource : source.provider.Covers l.offset (l.offset + l.length)) {i : Nat}
    (hi : i < l.length) :
    ∃ s l' w' asked, l.fetch w source i =
        ⟨.ok s, l', w', source.after asked, [l.requestFor i]⟩ ∧
      asked ≠ [] ∧ l'.Sound w' ∧ l.Uses (l.usedOnMiss i) l' := by
  obtain ⟨vs, asked, hask, hvs, hasked⟩ := h.ask hsource hi
  obtain ⟨hpositive, -⟩ := h.wanted_bounds hi
  have htaken : (vs.take (l.wanted i)).length = l.wanted i := List.length_take_of_le hvs
  have hfetched := h.fetched hi htaken
  dsimp only at hfetched
  rw [← length_shareAll w] at hfetched
  have hsome : 0 < (shareAll w (vs.take (l.wanted i))).1.length := by
    rw [length_shareAll, htaken]
    exact hpositive
  unfold LazyList.fetch
  rw [hask]
  dsimp only
  generalize shareAll w (vs.take (l.wanted i)) = out at hfetched hsome
  obtain ⟨shared, w'⟩ := out
  cases shared with
  | nil => exact absurd hsome (Nat.lt_irrefl 0)
  | cons s rest => exact ⟨s, _, w', asked, rfl, hasked, hfetched⟩

/-! ## One read -/

theorem SameSettings.requestFor {l l' : LazyList V} (h : l.SameSettings l') (i : Nat) :
    l'.requestFor i = l.requestFor i := by
  unfold LazyList.requestFor
  rw [h.strategy, h.offset, h.cacheSize, h.length]

theorem SameSettings.usedOnMiss {l l' : LazyList V} (h : l.SameSettings l') (i : Nat) :
    l'.usedOnMiss i = l.usedOnMiss i := by
  unfold LazyList.usedOnMiss wanted
  rw [h.strategy, h.cacheSize, h.length]

theorem SameSettings.covers {l l' : LazyList V} (h : l.SameSettings l') {p : IndexedProvider V}
    (hp : p.Covers l.offset (l.offset + l.length)) :
    p.Covers l'.offset (l'.offset + l'.length) := by
  rw [h.offset, h.length]
  exact hp

theorem Sound.get_of_mem {l : LazyList V} {w : World} (h : l.Sound w) {i : Nat}
    (hi : i < l.length) (hrecent : i ∈ l.recent) (source : Source V) :
    ∃ s l', l.get w source i = ⟨.ok s, l', w, source, []⟩ ∧ l'.Sound w ∧ l.Uses [i] l' := by
  have hswept := h.sweep
  have hrecent' : i ∈ (l.sweep w).recent := hswept.recent ▸ hrecent
  obtain ⟨s, l', hlookUp, hsound, huses⟩ := (h.forgets hswept).lookUp_of_mem hrecent'
  have hcounted := forgets_metrics l' l'.metrics.hit
  exact ⟨s, { l' with metrics := l'.metrics.hit }, get_of_lookUp_some hi hlookUp source,
    hsound.forgets hcounted, (hswept.uses.trans huses).trans hcounted.uses⟩

/-- An index that is not kept is read with a request. -/
theorem Sound.get_of_not_mem {l : LazyList V} {w : World} (h : l.Sound w) {i : Nat}
    (hi : i < l.length) (hrecent : i ∉ l.recent) {source : Source V}
    (hsource : source.provider.Covers l.offset (l.offset + l.length)) :
    ∃ s l' w' asked, l.get w source i =
        ⟨.ok s, l', w', source.after asked, [l.requestFor i]⟩ ∧
      asked ≠ [] ∧ l'.Sound w' ∧ l.Uses (l.usedOnMiss i) l' := by
  have hswept := h.sweep
  have hrecent' : i ∉ (l.sweep w).recent := hswept.recent ▸ hrecent
  obtain ⟨l₁, hlookUp, hforgets⟩ := (h.forgets hswept).lookUp_of_not_mem hrecent'
  have hmissed := (hswept.trans hforgets).trans (forgets_metrics l₁ l₁.metrics.miss)
  have hsettings := hmissed.settings
  have hi' := hsettings.length ▸ hi
  obtain ⟨s, l', w', asked, hfetch, hasked, hsound, huses⟩ :=
    (h.forgets hmissed).fetch (hsettings.covers hsource) hi'
  rw [hsettings.requestFor] at hfetch
  rw [hsettings.usedOnMiss] at huses
  exact ⟨s, l', w', asked, (get_of_lookUp_none hi hlookUp source).trans hfetch, hasked, hsound,
    hmissed.uses.trans huses⟩

/-! ## Any reads -/

/-- A list that is read, with what is around it and the uses so far, the oldest first. -/
structure Reading (V : Type u) where
  list : LazyList V
  world : World
  source : Source V
  used : List Nat

namespace Reading

def change (r : Reading V) (i : Nat) : Change V (Except CacheError (Shared V)) :=
  r.list.get r.world r.source i

/-- Whether the provider is asked for something when an index is read. -/
def Asks (r : Reading V) (i : Nat) : Prop := (r.change i).source.requests ≠ r.source.requests

instance (r : Reading V) (i : Nat) : Decidable (r.Asks i) :=
  inferInstanceAs (Decidable (_ ≠ _))

/-- Reads an index, which is used alone if the provider was not asked. -/
def get (r : Reading V) (i : Nat) : Reading V where
  list := (r.change i).list
  world := (r.change i).world
  source := (r.change i).source
  used := r.used ++ if r.Asks i then r.list.usedOnMiss i else [i]

end Reading

/-- A list that was made like `l` is read, and it keeps the indices used last. -/
structure Follows (l : LazyList V) (r : Reading V) : Prop where
  settings : l.SameSettings r.list
  sound : r.list.Sound r.world
  recent : r.list.recent = (latest r.used).take l.room
  covers : r.source.provider.Covers l.offset (l.offset + l.length)

theorem Follows.used {l : LazyList V} {r : Reading V} (h : l.Follows r) {is : List Nat}
    {l' : LazyList V} (huses : r.list.Uses is l') :
    l.SameSettings l' ∧ l'.recent = (latest (r.used ++ is)).take l.room := by
  refine ⟨h.settings.trans huses.settings, ?_⟩
  rw [huses.recent, h.settings.room, h.recent, foldl_touch_latest]

theorem Follows.get {l : LazyList V} {r : Reading V} (h : l.Follows r) {i : Nat}
    (hi : i < l.length) :
    l.Follows (r.get i) ∧ (∃ s, (r.change i).answer = .ok s) ∧
      (r.Asks i ↔ i ∉ (latest r.used).take l.room) := by
  have hi' : i < r.list.length := h.settings.length ▸ hi
  rw [← h.recent]
  by_cases hrecent : i ∈ r.list.recent
  · obtain ⟨s, l', hget, hsound, huses⟩ := h.sound.get_of_mem hi' hrecent r.source
    obtain ⟨hsettings, hkept⟩ := h.used huses
    have hchange : r.change i = ⟨.ok s, l', r.world, r.source, []⟩ := hget
    have hasks : ¬ r.Asks i := by
      unfold Reading.Asks
      rw [hchange]
      exact fun hne => hne rfl
    have hafter : r.get i = ⟨l', r.world, r.source, r.used ++ [i]⟩ := by
      rw [Reading.get, if_neg hasks, hchange]
    rw [hafter, hchange]
    exact ⟨⟨hsettings, hsound, hkept, h.covers⟩, ⟨s, rfl⟩,
      iff_of_false hasks fun hnot => hnot hrecent⟩
  · obtain ⟨s, l', w', asked, hget, hasked, hsound, huses⟩ :=
      h.sound.get_of_not_mem hi' hrecent (h.settings.covers h.covers)
    obtain ⟨hsettings, hkept⟩ := h.used huses
    have hchange : r.change i =
        ⟨.ok s, l', w', r.source.after asked, [r.list.requestFor i]⟩ := hget
    have hasks : r.Asks i := by
      unfold Reading.Asks
      rw [hchange]
      exact fun hsame => hasked (List.append_right_eq_self.1 hsame)
    have hafter : r.get i =
        ⟨l', w', r.source.after asked, r.used ++ r.list.usedOnMiss i⟩ := by
      rw [Reading.get, if_pos hasks, hchange]
    rw [hafter, hchange]
    exact ⟨⟨hsettings, hsound, hkept, h.covers⟩, ⟨s, rfl⟩, iff_of_true hasks hrecent⟩

theorem Follows.gets {l : LazyList V} {r : Reading V} (h : l.Follows r) {is : List Nat}
    (his : ∀ i ∈ is, i < l.length) : l.Follows (is.foldl Reading.get r) := by
  induction is generalizing r with
  | nil => exact h
  | cons i is ih =>
    rw [List.forall_mem_cons] at his
    exact ih (h.get his.1).1 his.2

theorem sound_fresh (offset length cacheSize : Nat) (strategy : MissStrategy)
    (softCapacity : Nat) {w : World} (hw : ∀ id, w.holds id = true → id < w.nextId) :
    (fresh offset length cacheSize strategy softCapacity : LazyList V).Sound w where
  hot := Recency.sound_empty
  values i := by constructor <;> intro hi <;> cases hi
  order := Recency.sound_empty
  retained i := by constructor <;> intro hi <;> cases hi
  tied i s hretained := by cases hretained
  apart i s hsoft := rfl
  names i s j t hi := by rcases hi with hi | hi <;> cases hi
  made i s hi := by rcases hi with hi | hi <;> cases hi
  positive := Nat.le_max_left 1 cacheSize
  hotFits := Nat.zero_le _
  heapFits := Nat.zero_le _
  full hsome := absurd rfl hsome
  older := hw

/-- After any reads of a list whose provider has all of its elements, the provider is asked for an
index exactly when it is not among the most recently used ones, as many as the list and its heap have
room for; and the index is answered. Objects that are held outside are older than the list. -/
theorem asks_iff_not_recent (offset length cacheSize : Nat) (strategy : MissStrategy)
    (softCapacity : Nat) (w : World) (source : Source V)
    (hw : ∀ id, w.holds id = true → id < w.nextId)
    (hsource : source.provider.Covers offset (offset + length)) (is : List Nat)
    (his : ∀ j ∈ is, j < length) (i : Nat) (hi : i < length) :
    let start : Reading V := ⟨fresh offset length cacheSize strategy softCapacity, w, source, []⟩
    let r := is.foldl Reading.get start
    (r.Asks i ↔ i ∉ (latest r.used).take (max 1 cacheSize + softCapacity)) ∧
      ∃ s, (r.change i).answer = .ok s := by
  intro start r
  have hstart : start.list.Follows start :=
    ⟨⟨rfl, rfl, rfl, rfl, rfl⟩, sound_fresh offset length cacheSize strategy softCapacity hw,
      List.take_nil.symm, hsource⟩
  obtain ⟨-, hanswer, hasks⟩ := (hstart.gets his).get hi
  exact ⟨hasks, hanswer⟩

def indices : IndexedProvider Nat where
  single _ index := .ok index
  range := some fun _ start stop => .ok (List.range' start (stop - start))

theorem covers_indices (first stop : Nat) : indices.Covers first stop where
  single _ index _ _ := ⟨index, rfl⟩
  range answer hanswer requests start last _ _ _ := by
    obtain rfl := Option.some.inj hanswer
    exact ⟨_, rfl, Nat.le_of_eq List.length_range'.symm⟩

/-- A list of eight elements that holds two of them, with a heap for one more. -/
def pairReading : Reading Nat :=
  ⟨fresh 3 8 2 .prefetchOnMiss 1, ⟨0, 1, [0], .ofFiles []⟩, ⟨indices, []⟩, []⟩

/-- After the indices 0, 5 and 1 were read, 5 is in the heap and 6 was given up. -/
theorem asks_iff_not_recent_pair :
    (∀ id, pairReading.world.holds id = true → id < pairReading.world.nextId) ∧
    indices.Covers 3 (3 + 8) ∧ (∀ j ∈ [0, 5, 1], j < 8) ∧
    let r := [0, 5, 1].foldl Reading.get pairReading
    (latest r.used).take 3 = [1, 2, 5] ∧ ¬ r.Asks 5 ∧ r.Asks 6 := by
  have hw (id : Nat) (hid : pairReading.world.holds id = true) :
      id < pairReading.world.nextId := by
    have hmem : id ∈ [0] := List.contains_iff_mem.1 hid
    rw [List.mem_singleton.1 hmem]
    exact Nat.zero_lt_one
  have hasks (i : Nat) (hi : i < 8) :=
    (asks_iff_not_recent 3 8 2 .prefetchOnMiss 1 pairReading.world ⟨indices, []⟩ hw
      (covers_indices 3 11) [0, 5, 1] (by decide) i hi).1
  refine ⟨hw, covers_indices 3 11, by decide, by decide, fun hasked => ?_, ?_⟩
  · exact (hasks 5 (by decide)).1 hasked (by decide)
  · exact (hasks 6 (by decide)).2 (by decide)

end LazyList

end CacheLayer
