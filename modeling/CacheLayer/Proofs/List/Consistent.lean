import CacheLayer.Proofs.List.Window

/-!
# The parts of a lazy list belong together

A lazy list holds elements in an order, has handles of those that it left to its heap, and counts. All
of that changes within one read, which may take in a whole run of elements, each of them held, left,
given up or unknown before; and the heap changes between the reads, so that what the list has of it may
be out of date.

* `Shelved` : the list and its heap agree on what was left. Whatever a read is made of keeps it so, up to
  `Shelved.takeIn` and `Shelved.lookUp`.
* `Coherent` : what is kept of the whole list; `Coherent.get` : one read.
* `Scene`, `Act` : a list among its callers, and what happens there.
* `consistent_among_callers` : the parts belong together, whatever happens.
-/

namespace CacheLayer.LazyList

variable {V : Type u} {l l' : LazyList V}

/-! ## What was left to the heap -/

/-- The list has the handle of each object that its heap retains, and has counted each handle. -/
structure Shelved (l : LazyList V) : Prop where
  heap : l.heap.Sound
  /-- What the heap retains under an index is the object that was left to it. -/
  tied : ∀ i s, l.heap.retained.get? i = some s → l.soft.get? i = some s
  /-- What is held was not left to the heap. -/
  apart : ∀ i s, l.soft.get? i = some s → l.values.get? i = none
  /-- Every handle that is there or was found dead came from leaving an element to the heap. -/
  evictions : l.soft.size + l.metrics.reclaimed ≤ l.metrics.evictedByCapacity

theorem Shelved.congr (h : l.Shelved) (hvalues : l'.values = l.values) (hsoft : l'.soft = l.soft)
    (hheap : l'.heap = l.heap) (hreclaimed : l'.metrics.reclaimed = l.metrics.reclaimed)
    (hevicted : l'.metrics.evictedByCapacity = l.metrics.evictedByCapacity) : l'.Shelved where
  heap := hheap ▸ h.heap
  tied := by
    rw [hheap, hsoft]
    exact h.tied
  apart := by
    rw [hvalues, hsoft]
    exact h.apart
  evictions := by
    rw [hsoft, hreclaimed, hevicted]
    exact h.evictions

theorem Shelved.left (h : l.Shelved) (i : Nat) (s : Shared V) : (l.left i s).Shelved where
  heap := (h.heap.retain i s).1
  tied j t hretained := tied_left h.tied hretained
  apart j t hsoft := apart_left h.apart hsoft
  evictions := by
    show (l.soft.insert i s).size + l.metrics.reclaimed ≤ l.metrics.evictedByCapacity + 1
    have hsize := Table.size_insert_le l.soft i s
    have hevictions := h.evictions
    omega

theorem Shelved.retire (h : l.Shelved) (is : List Nat) : (l.retire is).Shelved := by
  induction is generalizing l with
  | nil => exact h
  | cons i is ih =>
    rw [LazyList.retire]
    split
    · exact ih h
    · rename_i s _
      exact ih ((h.left i s).congr rfl rfl rfl rfl rfl)

theorem Shelved.hold (h : l.Shelved) (hot : Recency Nat) (i : Nat) (s : Shared V) : Shelved { l with
    hot
    soft := l.soft.erase i
    heap := (l.heap.release i).2
    values := l.values.insert i s } where
  heap := h.heap.without i l.heap.queue
  tied j t hretained := Table.get?_erase_of_imp h.tied hretained
  apart j t hsoft := by
    have hsoft : (l.soft.erase i).get? j = some t := hsoft
    show (l.values.insert i s).get? j = none
    rw [Table.get?_erase] at hsoft
    split at hsoft
    · cases hsoft
    · rename_i hj
      rw [Table.get?_insert, if_neg hj]
      exact h.apart j t hsoft
  evictions := Nat.le_trans (Nat.add_le_add_right (Table.size_erase_le l.soft i) _) h.evictions

theorem Shelved.takeIn (h : l.Shelved) (i : Nat) (s : Shared V) : (l.takeIn i s).Shelved :=
  (h.hold _ i s).retire _

/-! ## Forgetting -/

variable {w : World}

theorem Shelved.reclaim (h : l.Shelved) {i : Nat} {s : Shared V} (hsoft : l.soft.get? i = some s)
    (hdead : ¬ l.alive w s = true) : Shelved { l with
      soft := l.soft.erase i
      metrics := { l.metrics with reclaimed := l.metrics.reclaimed + 1 } } where
  heap := h.heap
  tied j t hretained := by
    have halive : l.alive w t = true := by
      unfold alive
      rw [Bool.or_eq_true]
      exact .inl (SoftHeap.alive_of_retained hretained w)
    exact (drops_erased hsoft hdead).kept j t (h.tied j t hretained) halive
  apart j t hkept := h.apart j t ((drops_erased hsoft hdead).soft j t hkept)
  evictions := by
    show (l.soft.erase i).size + (l.metrics.reclaimed + 1) ≤ l.metrics.evictedByCapacity
    have hsize := Table.size_erase_add_one (Table.contains_of_get? hsoft)
    have hevictions := h.evictions
    omega

theorem Shelved.forgetDead (h : l.Shelved) (w : World) (is : List Nat) :
    (l.forgetDead w is).Shelved := by
  induction is generalizing l with
  | nil => exact h
  | cons i is ih =>
    rw [LazyList.forgetDead]
    split
    · exact ih h
    · rename_i s hsoft
      split
      · exact ih h
      · rename_i hdead
        exact ih (h.reclaim hsoft hdead)

theorem Shelved.onHeap (h : l.Shelved) {heap : SoftHeap Nat V} (hsound : heap.Sound)
    (hwithin : heap.Within l.heap) : Shelved { l with heap } :=
  ⟨hsound, fun i s hretained => h.tied i s (hwithin i s hretained), h.apart, h.evictions⟩

theorem Shelved.sweep (h : l.Shelved) (w : World) : (l.sweep w).Shelved :=
  (h.onHeap h.heap.drain (.refl _)).forgetDead w l.heap.queue

theorem Shelved.lookUp (h : l.Shelved) (w : World) (i : Nat) : (l.lookUp w i).2.Shelved := by
  unfold LazyList.lookUp
  split
  · exact h.congr rfl rfl rfl rfl rfl
  · split
    · exact h
    · rename_i s hsoft
      dsimp only
      split
      · rw [takeIn_erased]
        exact h.takeIn i s
      · rename_i hdead
        exact h.reclaim hsoft hdead

/-! ## The whole list -/

/-- The indices are those of the list, there are no more elements than it may hold, and what was left to
the heap is shelved. -/
structure Coherent (l : LazyList V) : Prop where
  stocked : l.Stocked fun i _ => i < l.length
  fits : l.hot.size ≤ l.cacheSize
  shelved : l.Shelved

/-- `l'` is `l` after a part of a read that counts nothing. -/
structure Continues (l l' : LazyList V) : Prop where
  coherent : l'.Coherent
  settings : l.SameSettings l'
  reads : l'.reads = l.reads

theorem Continues.trans {l'' : LazyList V} (h : l.Continues l') (h' : l'.Continues l'') :
    l.Continues l'' :=
  ⟨h'.coherent, h.settings.trans h'.settings, h'.reads.trans h.reads⟩

theorem Continues.of_stocked (hstocked : l'.Stocked fun i _ => i < l.length)
    (hfits : l'.hot.size ≤ l.cacheSize) (hshelved : l'.Shelved) (hsettings : l.SameSettings l')
    (hreads : l'.reads = l.reads) : l.Continues l' := by
  refine ⟨⟨?_, ?_, hshelved⟩, hsettings, hreads⟩
  · rw [hsettings.length]
    exact hstocked
  · rw [hsettings.cacheSize]
    exact hfits

theorem Coherent.refl (h : l.Coherent) : l.Continues l := ⟨h, .refl l, rfl⟩

theorem size_hot_takeIn_le (hhot : l.hot.Sound) (i : Nat) (s : Shared V) :
    (l.takeIn i s).hot.size ≤ l.cacheSize := by
  have hfits := (hhot.pushFront i 1).trim_fits (Bound.entries l.cacheSize)
    (Recency.size_pushFront_le l.hot i 1)
  have hhot : (l.takeIn i s).hot = (Recency.trim (Bound.entries l.cacheSize).exceededBy
      (l.hot.size + 1) (l.hot.pushFront i 1)).1 := (retire_spec _ _).2.2.1
  rw [hhot]
  exact Nat.not_lt.1 (of_decide_eq_false hfits)

theorem Coherent.takeIn (h : l.Coherent) {i : Nat} (hi : i < l.length) (s : Shared V) :
    l.Continues (l.takeIn i s) := by
  obtain ⟨hstocked, hsettings, hreads⟩ := h.stocked.takeIn (s := s) hi
  exact .of_stocked hstocked (size_hot_takeIn_le h.stocked.hot i s) (h.shelved.takeIn i s)
    hsettings hreads

theorem Coherent.takeInAll (h : l.Coherent) {items : List (Nat × Shared V)}
    (hitems : ∀ e ∈ items, e.1 < l.length) : l.Continues (l.takeInAll items) := by
  induction items generalizing l with
  | nil => exact h.refl
  | cons e items ih =>
    rw [List.forall_mem_cons] at hitems
    have hfirst := h.takeIn hitems.1 e.2
    refine hfirst.trans (ih hfirst.coherent ?_)
    rw [hfirst.settings.length]
    exact hitems.2

theorem Coherent.moveToFront (h : l.Coherent) (i : Nat) :
    l.Continues { l with hot := l.hot.moveToFront i } := by
  refine .of_stocked (h.stocked.moveToFront i) ?_ (h.shelved.congr rfl rfl rfl rfl rfl)
    ⟨rfl, rfl, rfl, rfl, rfl⟩ rfl
  show (l.hot.moveToFront i).size ≤ l.cacheSize
  rw [Recency.size_moveToFront h.stocked.hot]
  exact h.fits

theorem Coherent.drops (h : l.Coherent) (hdrops : l.Drops w l') (hshelved : l'.Shelved) :
    l.Continues l' :=
  .of_stocked (h.stocked.drops hdrops) (hdrops.hot ▸ h.fits) hshelved hdrops.settings hdrops.reads

theorem Coherent.counted (h : l.Coherent) {metrics : Metrics}
    (hreclaimed : metrics.reclaimed = l.metrics.reclaimed)
    (hevicted : metrics.evictedByCapacity = l.metrics.evictedByCapacity) :
    Coherent { l with metrics } :=
  ⟨⟨h.stocked.hot, h.stocked.held, h.stocked.origin⟩, h.fits,
    h.shelved.congr rfl rfl rfl hreclaimed hevicted⟩

theorem Coherent.lookUp (h : l.Coherent) {i : Nat} (hi : i < l.length) (w : World) :
    l.Continues (l.lookUp w i).2 := by
  have hshelved := h.shelved.lookUp w i
  cases hlookUp : l.lookUp w i with
  | mk found l₁ =>
    rw [hlookUp] at hshelved
    cases found with
    | some s =>
      rcases (lookUp_some hlookUp).2 with rfl | rfl
      · exact h.moveToFront i
      · exact h.takeIn hi s
    | none => exact h.drops (lookUp_none hlookUp).2.2 hshelved

/-! ## One read -/

theorem add_wanted_le {i : Nat} (hi : i < l.length) : i + l.wanted i ≤ l.length := by
  unfold wanted
  split <;> omega

/-- However many elements the provider gives, those that are taken in belong to the list. -/
theorem Coherent.fetch (h : l.Coherent) {i : Nat} (hi : i < l.length) (w : World)
    (source : Source V) : l.Continues (l.fetch w source i).list := by
  unfold LazyList.fetch
  cases l.ask source i with
  | mk answer source' =>
    cases answer with
    | error e => exact h.refl
    | ok vs =>
      have hcount : (shareAll w (vs.take (l.wanted i))).1.length ≤ l.wanted i := by
        rw [length_shareAll]
        exact List.length_take_le _ _
      dsimp only
      generalize shareAll w (vs.take (l.wanted i)) = out at hcount
      obtain ⟨shared, w'⟩ := out
      have hitems : ∀ e ∈ (List.range' i shared.length).zip shared, e.1 < l.length := by
        intro e he
        obtain ⟨n, hn, hs⟩ := mem_run he
        obtain ⟨hlt, -⟩ := List.getElem?_eq_some_iff.1 hs
        have hend := add_wanted_le hi
        have hcount : shared.length ≤ l.wanted i := hcount
        omega
      have htaken := h.takeInAll hitems
      have hmoved := htaken.trans (htaken.coherent.moveToFront i)
      cases shared with
      | nil => exact hmoved
      | cons s rest => exact hmoved

theorem Coherent.get (h : l.Coherent) (w : World) (source : Source V) (i : Nat) :
    let out := l.get w source i
    out.list.Coherent ∧ l.SameSettings out.list ∧
      out.list.reads.1 + out.list.reads.2 =
        l.reads.1 + l.reads.2 + if i < l.length then 1 else 0 := by
  intro out
  by_cases hi : i < l.length
  · have hswept : l.Continues (l.sweep w) := h.drops (l.sweep_drops w) (h.shelved.sweep w)
    have hfound := hswept.trans (hswept.coherent.lookUp (hswept.settings.length ▸ hi) w)
    rw [if_pos hi]
    cases hlookUp : (l.sweep w).lookUp w i with
    | mk found l₁ =>
      rw [hlookUp] at hfound
      cases found with
      | some s =>
        have hout : out = ⟨.ok s, { l₁ with metrics := l₁.metrics.hit }, w, source, []⟩ :=
          get_of_lookUp_some hi hlookUp source
        rw [hout, ← hfound.reads]
        exact ⟨hfound.coherent.counted rfl rfl, hfound.settings.count _, Nat.add_right_comm _ 1 _⟩
      | none =>
        have hout : out = LazyList.fetch { l₁ with metrics := l₁.metrics.miss } w source i :=
          get_of_lookUp_none hi hlookUp source
        have hmissed : Coherent { l₁ with metrics := l₁.metrics.miss } :=
          hfound.coherent.counted rfl rfl
        have hi₁ : i < l₁.length := hfound.settings.length ▸ hi
        have hfetched := hmissed.fetch hi₁ w source
        rw [hout, hfetched.reads, ← hfound.reads]
        exact ⟨hfetched.coherent, (hfound.settings.count _).trans hfetched.settings,
          (Nat.add_assoc _ _ 1).symm⟩
  · have hout : out = _ := get_out_of_bounds (Nat.not_lt.1 hi) w source
    rw [hout, if_neg hi]
    exact ⟨h, .refl l, rfl⟩

/-! ## Among callers -/

/-- A list with what is around it. -/
structure Scene (V : Type u) where
  list : LazyList V
  world : World
  source : Source V

/-- What happens to a list. Who is given an object may keep it. -/
inductive Act where
  | get (i : Nat) (keep : Bool)
  /-- Somebody lets go of an object. -/
  | drop (id : Nat)
  | release (i : Nat) (keep : Bool)
  | heap (op : SoftHeap.Op Nat)
  /-- Others ask the provider and make objects. -/
  | others (asked : List Request) (made : Nat)

def Act.reads (length : Nat) : Act → Bool
  | .get i _ => i < length
  | _ => false

namespace Scene

/-- What is around a list once somebody may have kept what was given. -/
def keeping (w : World) (keep : Bool) (given : Option (Shared V)) : World :=
  match keep, given with
  | true, some s => w.hold s.id
  | _, _ => w

def act (s : Scene V) : Act → Scene V
  | .get i keep =>
    let out := s.list.get s.world s.source i
    ⟨out.list, keeping out.world keep out.answer.toOption, out.source⟩
  | .drop id => { s with world := { s.world with held := s.world.held.erase id } }
  | .release i keep =>
    let out := s.list.onHeap fun heap => heap.release i
    { s with list := out.2, world := keeping s.world keep out.1 }
  | .heap op => { s with list := { s.list with heap := s.list.heap.apply op } }
  | .others asked made =>
    { s with
      world := { s.world with nextId := s.world.nextId + made }
      source := s.source.after asked }

def run (s : Scene V) (acts : List Act) : Scene V := acts.foldl act s

/-- A list of which nothing was read yet. -/
def start (offset length cacheSize : Nat) (strategy : MissStrategy) (softCapacity : Nat) (w : World)
    (source : Source V) : Scene V :=
  ⟨fresh offset length cacheSize strategy softCapacity, w, source⟩

end Scene

theorem Coherent.apply (h : l.Coherent) (op : SoftHeap.Op Nat) :
    Coherent { l with heap := l.heap.apply op } ∧
      l.SameSettings { l with heap := l.heap.apply op } := by
  obtain ⟨hsound, hcapacity⟩ := h.shelved.heap.apply op
  exact ⟨⟨⟨h.stocked.hot, h.stocked.held, h.stocked.origin⟩, h.fits,
    h.shelved.onHeap hsound (SoftHeap.apply_within l.heap op)⟩, rfl, rfl, rfl, rfl, hcapacity⟩

/-- Whatever happens keeps a list coherent, and only reads are counted. -/
theorem Coherent.act {s : Scene V} (h : s.list.Coherent) (a : Act) :
    (s.act a).list.Coherent ∧ s.list.SameSettings (s.act a).list ∧
      (s.act a).list.reads.1 + (s.act a).list.reads.2 =
        s.list.reads.1 + s.list.reads.2 + if a.reads s.list.length then 1 else 0 := by
  cases a with
  | get i keep =>
    obtain ⟨hcoherent, hsettings, hreads⟩ := h.get s.world s.source i
    refine ⟨hcoherent, hsettings, hreads.trans ?_⟩
    unfold Act.reads
    simp only [decide_eq_true_eq]
  | drop id => exact ⟨h, .refl _, rfl⟩
  | release i keep =>
    obtain ⟨hcoherent, hsettings⟩ := h.apply (.release i)
    exact ⟨hcoherent, hsettings, rfl⟩
  | heap op =>
    obtain ⟨hcoherent, hsettings⟩ := h.apply op
    exact ⟨hcoherent, hsettings, rfl⟩
  | others asked made => exact ⟨h, .refl _, rfl⟩

theorem Coherent.run {s : Scene V} (h : s.list.Coherent) (acts : List Act) :
    (s.run acts).list.Coherent ∧ s.list.SameSettings (s.run acts).list ∧
      (s.run acts).list.reads.1 + (s.run acts).list.reads.2 =
        s.list.reads.1 + s.list.reads.2 + acts.countP (Act.reads s.list.length) := by
  induction acts generalizing s with
  | nil => exact ⟨h, .refl _, rfl⟩
  | cons a acts ih =>
    obtain ⟨hfirst, hsettings, hreads⟩ := h.act a
    obtain ⟨hlast, hsettings', hreads'⟩ := ih hfirst
    refine ⟨hlast, hsettings.trans hsettings', hreads'.trans ?_⟩
    rw [hsettings.length, hreads, List.countP_cons, Nat.add_assoc, Nat.add_comm (List.countP _ _)]

theorem coherent_fresh (offset length cacheSize : Nat) (strategy : MissStrategy)
    (softCapacity : Nat) :
    (fresh offset length cacheSize strategy softCapacity : LazyList V).Coherent where
  stocked := stocked_fresh ..
  fits := Nat.zero_le _
  shelved := ⟨SoftHeap.sound_ofCapacity softCapacity, nofun, nofun, Nat.le_refl 0⟩

/-! ## What is kept -/

/-- The parts of a list belong together, and it is within its sizes. -/
structure Consistent (l : LazyList V) : Prop where
  /-- The list has elements for the indices in its order. -/
  held : l.values.keys.Perm l.hot.keys
  inside : ∀ i ∈ l.hot.keys, i < l.length
  fits : l.hotSize ≤ l.cacheSize
  /-- No index is held and left to the heap. -/
  apart : l.values.keys.Disjoint l.soft.keys
  /-- The heap has objects for the indices in its order. -/
  retained : l.heap.retained.keys.Perm l.heap.order.keys
  /-- What the heap retains under an index is the object of the list's handle. -/
  tied : ∀ i s, l.heap.retained.get? i = some s → l.soft.get? i = some s
  heapFits : l.heap.size ≤ l.heap.capacity
  reclaimed : l.stats.reclaimed ≤ l.stats.evicted

theorem Coherent.consistent (h : l.Coherent) : l.Consistent where
  held := Table.keys_perm h.stocked.hot.nodup_keys fun i => (h.stocked.held i).symm
  inside i hi := by
    obtain ⟨s, hvalue⟩ := Table.get?_of_contains ((h.stocked.held i).1 hi)
    exact h.stocked.origin i s (.inl hvalue)
  fits := h.fits
  apart i hvalue hsoft := by
    rw [Table.mem_keys] at hvalue hsoft
    obtain ⟨s, hs⟩ := Table.get?_of_contains hsoft
    rw [Table.contains, h.shelved.apart i s hs] at hvalue
    cases hvalue
  retained := Table.keys_perm h.shelved.heap.order.nodup_keys fun i => (h.shelved.heap.listed i).symm
  tied := h.shelved.tied
  heapFits := h.shelved.heap.fits
  reclaimed := Nat.le_trans (Nat.le_add_left _ _) h.shelved.evictions

/-- Whatever is read, whatever the provider answers, whatever callers keep or drop and whatever is done
to the heap, the parts of a list stay consistent within the sizes that it was made with, and it has
counted every read of one of its indices as found or missed. -/
theorem consistent_among_callers (offset length cacheSize : Nat) (strategy : MissStrategy)
    (softCapacity : Nat) (w : World) (source : Source V) (acts : List Act) :
    let first := Scene.start offset length cacheSize strategy softCapacity w source
    let last := first.run acts
    last.list.Consistent ∧ first.list.SameSettings last.list ∧
      last.list.stats.hits + last.list.stats.misses = acts.countP (Act.reads length) := by
  intro first last
  obtain ⟨hcoherent, hsettings, hreads⟩ :=
    (show first.list.Coherent from coherent_fresh ..).run acts
  refine ⟨hcoherent.consistent, hsettings, hreads.trans ?_⟩
  exact Nat.zero_add _

/-- The elements of 2 and 3 push out those of 0 and 1, and the heap has room for one at a time. That of 0
is found again because its caller kept it; that of 1 is not. -/
example :
    let first := Scene.start 0 5 2 .prefetchOnMiss 1 ⟨0, 0, [], .ofFiles []⟩ ⟨indices, []⟩
    (first.run [.get 0 true, .get 2 false, .get 1 false, .get 0 false, .get 5 false]).list.stats =
      { hits := 1, misses := 3, reclaimed := 1, evicted := 4 } := by
  decide

end CacheLayer.LazyList
