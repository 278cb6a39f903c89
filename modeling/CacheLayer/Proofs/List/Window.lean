import CacheLayer.Proofs.List.Origin

/-!
# Windows of a lazy list

A window of a list, a window of that, and so on, are lists of their own over the same provider. Whatever
is done to each of them and to their heaps, and however the provider answers, a window stays inside the
first list and gives only what the provider produced for the very index that is meant.

* `Reached` : the lists that are reached, with what their provider was asked so far.
* `Genuine.fetch`, `Genuine.get` : one request, and one read.
* `serves_own_elements` : every read of every list that is reached.
-/

namespace CacheLayer.LazyList

variable {V : Type u}

theorem map_value_shareAll (w : World) (vs : List V) :
    (shareAll w vs).1.map Shared.value = vs := by
  induction vs generalizing w with
  | nil => rfl
  | cons v vs ih => exact congrArg (v :: ·) (ih (w.share v).2)

theorem shareAll_nothing {w : World} {vs : List V} (h : (shareAll w vs).1 = []) :
    (shareAll w vs).2 = w := by
  cases vs with
  | nil => rfl
  | cons v vs => cases h

theorem mem_run {i : Nat} {shared : List (Shared V)} {e : Nat × Shared V}
    (he : e ∈ (List.range' i shared.length).zip shared) :
    ∃ n, e.1 = i + n ∧ shared[n]? = some e.2 := by
  obtain ⟨n, hn, rfl⟩ := List.getElem_of_mem he
  rw [List.length_zip, List.length_range', Nat.min_self] at hn
  exact ⟨n, by simp, by simp [hn]⟩

/-- The elements of `l` were produced by the provider for the indices that they are kept under. -/
def Genuine (l : LazyList V) (source : Source V) : Prop :=
  l.Stocked fun i v => source.Produced (l.offset + i) v

variable {l l' : LazyList V} {source : Source V} {i : Nat}

theorem Genuine.of_stocked (h : l'.Stocked fun i v => source.Produced (l.offset + i) v)
    (hsettings : l.SameSettings l') : l'.Genuine source := by
  unfold Genuine
  rw [hsettings.offset]
  exact h

theorem Stocked.moveToFront_free {P : Nat → V → Prop} (h : l.Stocked P)
    (hfree : l.values.get? i = none) : l.hot.moveToFront i = l.hot := by
  have hnot : i ∉ l.hot.keys := by
    rw [h.held, Table.contains, hfree]
    exact Bool.false_ne_true
  rw [Recency.moveToFront, (l.hot.weight?_eq_none_iff i).2 hnot]

theorem Genuine.count (h : l.Genuine source) (metrics : Metrics) :
    Genuine { l with metrics } source := ⟨h.hot, h.held, h.origin⟩

theorem SameSettings.count (h : l.SameSettings l') (metrics : Metrics) :
    l.SameSettings { l' with metrics } :=
  ⟨h.offset, h.length, h.cacheSize, h.strategy, h.capacity⟩

/-! ## Asking for an element -/

/-- The elements that are kept of an answer are those of the indices from the missing one on. -/
theorem produced_of_taken {source' : Source V} {vs : List V}
    (hserves : source.Serves source' (l.requestFor i) (.ok vs)) {shared : List (Shared V)}
    {count : Nat} (hshared : shared.map Shared.value = vs.take count) {n : Nat} {s : Shared V}
    (hs : shared[n]? = some s) : source'.Produced (l.offset + (i + n)) s.value := by
  have hv : (vs.take count)[n]? = some s.value := by
    rw [← hshared, List.getElem?_map, hs]
    rfl
  rw [List.getElem?_take] at hv
  split at hv
  · have hgiven := hserves.produced vs rfl n s.value hv
    rwa [first_requestFor, Nat.add_assoc] at hgiven
  · cases hv

theorem Genuine.takeInRun (h : l.Genuine source) {shared : List (Shared V)}
    (hproduced : ∀ n s, shared[n]? = some s → source.Produced (l.offset + (i + n)) s.value) :
    let taken := l.takeInAll ((List.range' i shared.length).zip shared)
    let l' : LazyList V := { taken with hot := taken.hot.moveToFront i }
    l'.Genuine source ∧ l.SameSettings l' ∧ l'.reads = l.reads := by
  intro taken l'
  have hitems : ∀ e ∈ (List.range' i shared.length).zip shared,
      source.Produced (l.offset + e.1) e.2.value := by
    intro e he
    obtain ⟨n, hn, hs⟩ := mem_run he
    rw [hn]
    exact hproduced n e.2 hs
  obtain ⟨hstocked, hsettings, hreads⟩ := Stocked.takeInAll h hitems
  have hsettings' : l.SameSettings l' :=
    ⟨hsettings.offset, hsettings.length, hsettings.cacheSize, hsettings.strategy, hsettings.capacity⟩
  exact ⟨Genuine.of_stocked (hstocked.moveToFront i) hsettings', hsettings', hreads⟩

/-- A read that finds nothing makes one request; what it is given it keeps under the indices it was asked
for, and when it fails the list stays as it is. -/
theorem Genuine.fetch (h : l.Genuine source) (hi : i < l.length) (hfree : l.values.get? i = none)
    (w : World) :
    let out := l.fetch w source i
    (out.list.Genuine out.source ∧ l.SameSettings out.list ∧ out.list.reads = l.reads) ∧
      (source.AskedOnce out.source (l.requestFor i) ∧ out.requests = [l.requestFor i]) ∧
      (∀ s, out.answer = .ok s → out.source.Produced (l.offset + i) s.value) ∧
      ∀ e, out.answer = .error e → out.world = w ∧ out.list = l := by
  have hserves := l.ask_serves source hi
  unfold LazyList.fetch
  cases hask : l.ask source i with
  | mk answer source' =>
    rw [hask] at hserves
    have hgrown : l.Genuine source' := by
      obtain ⟨asked, rfl, -⟩ := hserves.asked
      exact Stocked.imp h fun j v hv => hv.after asked
    cases answer with
    | error e =>
      refine ⟨⟨hgrown, .refl l, rfl⟩, ⟨hserves.asked, rfl⟩, fun s hs => ?_, fun _ _ => ⟨rfl, rfl⟩⟩
      cases hs
    | ok vs =>
      have hvalues := map_value_shareAll w (vs.take (l.wanted i))
      have hworld : (shareAll w (vs.take (l.wanted i))).1 = [] →
          (shareAll w (vs.take (l.wanted i))).2 = w := shareAll_nothing
      dsimp only
      generalize shareAll w (vs.take (l.wanted i)) = out at hvalues hworld
      obtain ⟨shared, w'⟩ := out
      have hkept := hgrown.takeInRun fun n s hs => produced_of_taken hserves hvalues hs
      cases shared with
      | nil =>
        -- the source gave nothing: this fails as well, so the list must be the very same
        have hsame : { l with hot := l.hot.moveToFront i } = l := by
          rw [Stocked.moveToFront_free h hfree]
        refine ⟨hkept, ⟨hserves.asked, rfl⟩, fun s hs => ?_, fun _ _ => ⟨hworld rfl, hsame⟩⟩
        cases hs
      | cons s rest =>
        refine ⟨hkept, ⟨hserves.asked, rfl⟩, fun t ht => ?_, fun e he => ?_⟩
        · obtain rfl := Except.ok.inj ht
          have hfirst : (s :: rest)[0]? = some s := rfl
          exact produced_of_taken hserves hvalues hfirst
        · cases he

/-! ## One read -/

section

variable {w : World} {l₁ : LazyList V}

theorem Genuine.get_found (h : l.Genuine source) (hi : i < l.length) {s : Shared V}
    (hlookUp : (l.sweep w).lookUp w i = (some s, l₁)) :
    let out := l.get w source i
    (out.list.Genuine out.source ∧ l.SameSettings out.list) ∧
      (l.Has w i s ∧ out.answer = .ok s ∧ out.requests = [] ∧ out.source = source ∧
        out.list.reads = (l.reads.1 + 1, l.reads.2)) ∧
      source.Produced (l.offset + i) s.value := by
  intro out
  have hswept := l.sweep_drops w
  have hstocked : (l.sweep w).Stocked fun j v => source.Produced (l.offset + j) v :=
    Stocked.drops h hswept
  obtain ⟨hhas, hfound⟩ := lookUp_some hlookUp
  have hown : source.Produced (l.offset + i) s.value := by
    rcases hhas with hvalue | ⟨hsoft, -⟩
    · exact hstocked.origin i s (.inl hvalue)
    · exact hstocked.origin i s (.inr hsoft)
  have hafter : l₁.Stocked (fun j v => source.Produced (l.offset + j) v) ∧
      (l.sweep w).SameSettings l₁ ∧ l₁.reads = (l.sweep w).reads := by
    rcases hfound with rfl | rfl
    · exact ⟨hstocked.moveToFront i, ⟨rfl, rfl, rfl, rfl, rfl⟩, rfl⟩
    · exact hstocked.takeIn hown
  obtain ⟨hkept, hsettings, hreads⟩ := hafter
  have hsettings := hswept.settings.trans hsettings
  have hreads := hreads.trans hswept.reads
  have hout : out = ⟨.ok s, { l₁ with metrics := l₁.metrics.hit }, w, source, []⟩ :=
    get_of_lookUp_some hi hlookUp source
  rw [hout]
  refine ⟨⟨(Genuine.of_stocked hkept hsettings).count _, hsettings.count _⟩,
    ⟨(hswept.has_iff i s).1 hhas, rfl, rfl, rfl, ?_⟩, hown⟩
  rw [← hreads]
  rfl

theorem Genuine.get_missed (h : l.Genuine source) (hi : i < l.length)
    (hlookUp : (l.sweep w).lookUp w i = (none, l₁)) :
    let out := l.get w source i
    (out.list.Genuine out.source ∧ l.SameSettings out.list) ∧
      ((∀ s, ¬ l.Has w i s) ∧ out.requests = [l.requestFor i] ∧
        source.AskedOnce out.source (l.requestFor i) ∧
        out.list.reads = (l.reads.1, l.reads.2 + 1)) ∧
      (∀ s, out.answer = .ok s → out.source.Produced (l.offset + i) s.value) ∧
      ∀ e, out.answer = .error e → out.world = w ∧ out.list.hot = l.hot ∧
        out.list.heap.order = l.heap.order ∧ ∀ j s, out.list.Has w j s ↔ l.Has w j s := by
  intro out
  have hswept := l.sweep_drops w
  obtain ⟨hfree, hnone, hlooked⟩ := lookUp_none hlookUp
  have hdrops := hswept.trans hlooked
  have hgenuine : Genuine { l₁ with metrics := l₁.metrics.miss } source :=
    (Genuine.of_stocked (Stocked.drops h hdrops) hdrops.settings).count _
  have hcounted := hdrops.settings.count l₁.metrics.miss
  have hi₁ : i < l₁.length := hdrops.settings.length ▸ hi
  have hfree₁ : l₁.values.get? i = none := by
    rw [hlooked.values]
    exact hfree
  obtain ⟨⟨hafter, hsettings, hreads⟩, ⟨hasked, hrequests⟩, hok, herror⟩ :=
    hgenuine.fetch hi₁ hfree₁ w
  have hout : out = LazyList.fetch { l₁ with metrics := l₁.metrics.miss } w source i :=
    get_of_lookUp_none hi hlookUp source
  have hrequest : ({ l₁ with metrics := l₁.metrics.miss } : LazyList V).requestFor i =
      l.requestFor i := hcounted.requestFor i
  rw [hrequest] at hasked hrequests
  rw [hout]
  refine ⟨⟨hafter, hcounted.trans hsettings⟩, ⟨fun s hs => ?_, hrequests, hasked, ?_⟩,
    fun s hs => ?_, fun e he => ?_⟩
  · exact hnone s ((hswept.has_iff i s).2 hs)
  · rw [hreads, ← hdrops.reads]
    rfl
  · rw [← hdrops.settings.offset]
    exact hok s hs
  · obtain ⟨hworld, hsame⟩ := herror e he
    rw [hsame]
    exact ⟨hworld, hdrops.hot, hdrops.order, hdrops.has_iff⟩

end

/-- A read of an index of the list. If its element can be given, it is; if not, one request is made. -/
theorem Genuine.get (h : l.Genuine source) (hi : i < l.length) (w : World) :
    let out := l.get w source i
    (out.list.Genuine out.source ∧ l.SameSettings out.list) ∧
      ((∃ s, l.Has w i s ∧ out.answer = .ok s ∧ out.requests = [] ∧ out.source = source ∧
          out.list.reads = (l.reads.1 + 1, l.reads.2)) ∨
        (∀ s, ¬ l.Has w i s) ∧ out.requests = [l.requestFor i] ∧
          source.AskedOnce out.source (l.requestFor i) ∧
          out.list.reads = (l.reads.1, l.reads.2 + 1)) ∧
      (∀ s, out.answer = .ok s → out.source.Produced (l.offset + i) s.value) ∧
      ∀ e, out.answer = .error e → out.world = w ∧ out.list.hot = l.hot ∧
        out.list.heap.order = l.heap.order ∧ ∀ j s, out.list.Has w j s ↔ l.Has w j s := by
  intro out
  cases hlookUp : (l.sweep w).lookUp w i with
  | mk found l₁ =>
    cases found with
    | some s =>
      obtain ⟨hkept, ⟨hhas, hanswer, hrequests, hsource, hreads⟩, hown⟩ := h.get_found hi hlookUp
      refine ⟨hkept, .inl ⟨s, hhas, hanswer, hrequests, hsource, hreads⟩, fun t ht => ?_, fun e he => ?_⟩
      · obtain rfl := Except.ok.inj (hanswer.symm.trans ht)
        rw [hsource]
        exact hown
      · cases hanswer.symm.trans he
    | none =>
      obtain ⟨hkept, hmissed, hok, herror⟩ := h.get_missed hi hlookUp
      exact ⟨hkept, .inr hmissed, hok, herror⟩

/-! ## Every list that is reached -/

/-- The lists that are reached from one of `N` elements, with what their provider was asked so far. The
provider may be asked by others too, such as other windows. -/
inductive Reached (N : Nat) : LazyList V → Source V → Prop
  | root (cacheSize : Nat) (strategy : MissStrategy) (softCapacity : Option Nat) (source : Source V) :
    Reached N (make N cacheSize strategy softCapacity) source
  | window {l l' : LazyList V} {source : Source V} (h : Reached N l source) {start stop : Nat}
    (hwindow : l.window? start stop = .ok l') : Reached N l' source
  | get {l : LazyList V} {source : Source V} (h : Reached N l source) (w : World) (i : Nat) :
    Reached N (l.get w source i).list (l.get w source i).source
  | heap {l : LazyList V} {source : Source V} (h : Reached N l source) (op : SoftHeap.Op Nat) :
    Reached N { l with heap := l.heap.apply op } source
  | others {l : LazyList V} {source : Source V} (h : Reached N l source) (asked : List Request) :
    Reached N l (source.after asked)

structure Serving (N : Nat) (l : LazyList V) (source : Source V) : Prop where
  fits : l.offset + l.length ≤ N
  positive : 1 ≤ l.cacheSize
  genuine : l.Genuine source

theorem stocked_fresh (offset length cacheSize : Nat) (strategy : MissStrategy) (softCapacity : Nat)
    (P : Nat → V → Prop) : (fresh offset length cacheSize strategy softCapacity).Stocked P := by
  refine ⟨Recency.sound_empty, fun i => ?_, fun i s hs => ?_⟩
  · constructor <;> intro hi <;> cases hi
  · rcases hs with hs | hs <;> cases hs

theorem serving_fresh {N offset length : Nat} (hfits : offset + length ≤ N) (cacheSize : Nat)
    (strategy : MissStrategy) (softCapacity : Nat) (source : Source V) :
    Serving N (fresh offset length cacheSize strategy softCapacity) source :=
  ⟨hfits, Nat.le_max_left 1 cacheSize, stocked_fresh ..⟩

theorem get_out_of_bounds (hi : l.length ≤ i) (w : World) (source : Source V) :
    l.get w source i = ⟨.error (.indexOutOfBounds i l.length), l, w, source, []⟩ := by
  rw [LazyList.get, if_pos hi]

theorem Reached.serving {N : Nat} (h : Reached N l source) : Serving N l source := by
  induction h with
  | root cacheSize strategy softCapacity source =>
    exact serving_fresh (Nat.le_of_eq (Nat.zero_add N)) cacheSize strategy _ source
  | @window l l' source _ start stop hwindow ih =>
    unfold window? at hwindow
    split at hwindow
    · cases hwindow
    · split at hwindow
      · cases hwindow
      · obtain rfl := Except.ok.inj hwindow
        have hfits := ih.fits
        exact serving_fresh (by omega) _ _ _ source
  | @get l source _ w i ih =>
    by_cases hi : i < l.length
    · obtain ⟨⟨hgenuine, hsettings⟩, -⟩ := ih.genuine.get hi w
      exact ⟨hsettings.offset ▸ hsettings.length ▸ ih.fits, hsettings.cacheSize ▸ ih.positive,
        hgenuine⟩
    · rw [get_out_of_bounds (Nat.not_lt.1 hi)]
      exact ih
  | heap _ op ih => exact ⟨ih.fits, ih.positive, ih.genuine.hot, ih.genuine.held, ih.genuine.origin⟩
  | others _ asked ih =>
    exact ⟨ih.fits, ih.positive, Stocked.imp ih.genuine fun i v hv => hv.after asked⟩

/-- A list that is reached lies in the first one. A read beyond its end says so and changes nothing. A
read that succeeds gives what the provider produced for the index that is meant. One that finds its
element asks for nothing; one that does not makes one request, which starts there, stays inside the list
and is no longer than what is held at a time. A read that fails leaves what could be given before. -/
theorem serves_own_elements {N : Nat} (h : Reached N l source) (w : World) (i : Nat) :
    let out := l.get w source i
    l.offset + l.length ≤ N ∧
    (l.length ≤ i → out = ⟨.error (.indexOutOfBounds i l.length), l, w, source, []⟩) ∧
    (∀ s, out.answer = .ok s → out.source.Produced (l.offset + i) s.value) ∧
    (i < l.length →
      (∃ s, l.Has w i s ∧ out.answer = .ok s ∧ out.requests = [] ∧ out.source = source ∧
        out.list.reads = (l.reads.1 + 1, l.reads.2)) ∨
      (∀ s, ¬ l.Has w i s) ∧ out.list.reads = (l.reads.1, l.reads.2 + 1) ∧
        ∃ r, out.requests = [r] ∧ source.AskedOnce out.source r ∧ r.first = l.offset + i ∧
          r.first < r.stop ∧ r.stop ≤ l.offset + l.length ∧ r.stop ≤ r.first + l.cacheSize) ∧
    ∀ e, out.answer = .error e → out.world = w ∧ out.list.hot = l.hot ∧
      out.list.heap.order = l.heap.order ∧ ∀ j s, out.list.Has w j s ↔ l.Has w j s := by
  intro out
  obtain ⟨hfits, hpositive, hgenuine⟩ := h.serving
  refine ⟨hfits, fun hi => get_out_of_bounds hi w source, ?_⟩
  by_cases hi : i < l.length
  · obtain ⟨-, hcases, hok, herror⟩ := hgenuine.get hi w
    refine ⟨hok, fun _ => hcases.imp_right ?_, herror⟩
    rintro ⟨hnone, hrequests, hasked, hreads⟩
    have hfirst := l.first_requestFor i
    have hbounds := requestFor_bounds hpositive hi
    rw [← hfirst] at hbounds
    exact ⟨hnone, hreads, l.requestFor i, hrequests, hasked, hfirst, hbounds⟩
  · have hout : out = _ := get_out_of_bounds (Nat.not_lt.1 hi) w source
    rw [hout]
    exact ⟨nofun, fun hlt => (hi hlt).elim, fun _ _ => ⟨rfl, rfl, rfl, fun _ _ => Iff.rfl⟩⟩

theorem reached_gets {N : Nat} {r : Reading V} (h : Reached N r.list r.source) (is : List Nat) :
    Reached N (is.foldl Reading.get r).list (is.foldl Reading.get r).source := by
  induction is generalizing r with
  | nil => exact h
  | cons i is ih => exact ih (r := r.get i) (h.get r.world i)

/-- The elements from 3 up to 6, as a window of a window, of which 0 and 2 were read. -/
def nested : Reading Nat :=
  [0, 2].foldl Reading.get
    ⟨fresh 3 3 2 .prefetchOnMiss 1, ⟨0, 0, [], .ofFiles []⟩, ⟨indices, []⟩, []⟩

theorem reached_nested : Reached 8 nested.list nested.source := by
  have hroot : Reached 8 (make 8 2 .prefetchOnMiss (some 1)) (⟨indices, []⟩ : Source Nat) :=
    .root 2 .prefetchOnMiss (some 1) _
  have houter : (make 8 2 .prefetchOnMiss (some 1) : LazyList Nat).window? 2 7 =
      .ok (fresh 2 5 2 .prefetchOnMiss 1) := rfl
  have hinner : (fresh 2 5 2 .prefetchOnMiss 1 : LazyList Nat).window? 1 4 =
      .ok (fresh 3 3 2 .prefetchOnMiss 1) := rfl
  exact reached_gets (r := ⟨_, _, ⟨indices, []⟩, []⟩) ((hroot.window houter).window hinner) [0, 2]

/-- The element of 1 came with that of 0, left to the heap when 2 was read, and is given without a
request; that of 3 lies outside. -/
theorem serves_own_elements_nested :
    Reached 8 nested.list nested.source ∧
    (nested.list.get nested.world nested.source 1).answer = .ok ⟨1, 4⟩ ∧
    (nested.list.get nested.world nested.source 1).requests = [] ∧
    nested.source.Produced 4 4 ∧
    (nested.list.get nested.world nested.source 3).answer = .error (.indexOutOfBounds 3 3) := by
  have hread := serves_own_elements reached_nested nested.world 1
  have hanswer : (nested.list.get nested.world nested.source 1).answer = .ok ⟨1, 4⟩ := rfl
  have hbeyond := (serves_own_elements reached_nested nested.world 3).2.1 (Nat.le_refl 3)
  exact ⟨reached_nested, hanswer, rfl, hread.2.2.1 ⟨1, 4⟩ hanswer,
    congrArg Change.answer hbeyond⟩

end CacheLayer.LazyList
