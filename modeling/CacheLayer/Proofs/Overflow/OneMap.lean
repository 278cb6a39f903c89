import CacheLayer.Proofs.Overflow.SingleList

/-!
# Two tiers behave as one map

Every request to a two-tier cache is replied to as an `Lru` map of both capacities replies, and what
leaves the cache is what that map pushes out; with the memory tier alone, as a map of its capacity.

* `Mirrors` : the cache looks from outside as the map does.
* `Mirrors.insert`, `Mirrors.get`, `Mirrors.remove`, `Mirrors.serve` : each request keeps that.
* `one_lru` : so does every sequence of requests.
-/

namespace CacheLayer.Overflow

variable {K : Type u} {V : Type v} [DecidableEq K] {twoTiers : Bool} {n m : Nat}

/-! ## Looking the same -/

/-- The cache looks from outside as the map does. -/
structure Mirrors (twoTiers : Bool) (n m : Nat) (c : Overflow K V) (area : FileArea)
    (l : Lru K V) : Prop where
  sound : c.Sound
  fits : c.Fits
  undisturbed : c.Undisturbed twoTiers n m area
  matched : Matches c area l
  capacity : l.capacity = n + m
  codec : twoTiers = true → ∀ k v, l.find? k = some v → c.settings.codec.RoundTrips v

/-- The cache did what the map does: it replies and tells the same, and they still look the same. -/
structure Mirrored (twoTiers : Bool) (n m : Nat) (o : Lru.Served K V)
    (s : Step (Overflow K V) (Eviction K V) (MapReply K (Shared V))) : Prop where
  mirrors : Mirrors twoTiers n m s.state s.world.area o.map
  agrees : (s.answer.map Shared.value).Agrees o.reply
  tells : departing twoTiers s.log = o.evicted.map (told twoTiers)

theorem Mirrors.memory_length {c : Overflow K V} {area : FileArea}
    {l : Lru K V} (h : Mirrors twoTiers n m c area l) : c.order.keys.length ≤ n := by
  have hfits := h.fits.memory
  unfold MemoryFits at hfits
  rw [h.undisturbed.memoryBound] at hfits
  rw [Recency.length_keys]
  exact Nat.le_of_not_lt (of_decide_eq_false hfits)

theorem Mirrors.disk_length {c : Overflow K V} {area : FileArea}
    {l : Lru K V} (h : Mirrors twoTiers n m c area l) : c.diskOrder.length ≤ m := by
  cases twoTiers with
  | false => simp [diskOrder_of_none (h.undisturbed.memoryOnly rfl).1]
  | true =>
    obtain ⟨t, hdisk, hbound, -⟩ := h.undisturbed.overDisk rfl
    have hfits := h.fits.disk t hdisk
    rw [hbound] at hfits
    rw [diskOrder_of_disk hdisk, Recency.length_keys]
    exact Nat.le_of_not_lt (of_decide_eq_false hfits)

omit [DecidableEq K] in
/-- Nobody is told of an entry that left on request. -/
theorem departing_removed (twoTiers : Bool) (k : K) (value : Option (Shared V)) :
    departing twoTiers [⟨k, value, .removed⟩] = [] := by
  cases twoTiers <;> rfl

/-! ## The requests -/

theorem Mirrors.expiration {c : Overflow K V} {w : World} {l : Lru K V}
    (h : Mirrors twoTiers n m c w.area l) {k : K} {e : Entry V}
    (hget : c.entries.get? k = some e) : c.expiration w e = none := by
  unfold Overflow.expiration
  rw [(h.matched.entry hget).1, h.undisturbed.timeToIdle]
  rfl

theorem Mirrors.codec_insert {c : Overflow K V} {area : FileArea} {l : Lru K V}
    (h : Mirrors twoTiers n m c area l) {k : K} {v : V} (htiers : twoTiers = true)
    (hvalue : c.settings.codec.RoundTrips v) (k' : K) (v' : V)
    (hfind : ((l.without k).toFront k v).find? k' = some v') :
    c.settings.codec.RoundTrips v' := by
  rw [Lru.toFront_without, Lru.find?_toFront] at hfind
  split at hfind
  · rw [← Option.some.inj hfind]
    exact hvalue
  · exact h.codec htiers k' v' hfind

theorem Mirrors.insert_settles {c : Overflow K V} {w : World} {l : Lru K V}
    (h : Mirrors twoTiers n m c w.area l) (k : K) (value : Shared V)
    (hvalue : twoTiers = true → c.settings.codec.RoundTrips value.value) :
    Settles twoTiers n m (l.toFront k value.value)
      (((c.dropMemory k).dropDisk k).takeIn (c.clearedWorld w k) k (c.freshEntry w value)) := by
  have hcleared := h.matched.cleared h.sound k
  have hstamps : (c.freshEntry w value).stamps = ⟨0, 0⟩ := by
    unfold freshEntry
    rw [h.undisturbed.timeToLive, h.undisturbed.timeToIdle]
    rfl
  have hmemory : ((c.dropMemory k).dropDisk k).order.keys.length ≤ n := by
    have hsize := Recency.size_remove_le c.order k
    have hlength := h.memory_length
    rw [Recency.length_keys] at hlength ⊢
    show (c.order.remove k).size ≤ n
    omega
  have hdisk : ((c.dropMemory k).dropDisk k).diskOrder.length ≤ m := by
    rw [diskOrder_dropDisk]
    exact Nat.le_trans (List.length_filter_le _ _) h.disk_length
  have hsettles := hcleared.takeIn (w := c.clearedWorld w k) (h.sound.dropBoth k)
    (h.undisturbed.cleared k) hstamps h.capacity hmemory hdisk
    fun htiers => h.codec_insert htiers (hvalue htiers)
  have hvalue' : (c.freshEntry w value).value.value = value.value := rfl
  rwa [hvalue', Lru.toFront_without] at hsettles

theorem Mirrors.insert {c : Overflow K V} {w : World} {l : Lru K V}
    (h : Mirrors twoTiers n m c w.area l) (k : K) (value : Shared V)
    (hvalue : twoTiers = true → c.settings.codec.RoundTrips value.value) :
    Mirrored twoTiers n m (l.serve (.insert k value.value)) (c.serve w (.insert k value)) := by
  have hsettles := h.insert_settles k value hvalue
  have hsetup := h.sound.sameSetup_insert w k value
  have hsound := h.sound.insert w k value
  have hfits := h.fits.insert h.sound w k value
  refine ⟨⟨hsound, hfits, ?_, ?_, h.capacity, ?_⟩, rfl, ?_⟩
  · show (c.insert w k value).state.Undisturbed twoTiers n m (c.insert w k value).world.area
    rw [h.sound.insert_eq]
    exact hsettles.undisturbed.congr rfl rfl
  · show Matches (c.insert w k value).state (c.insert w k value).world.area _
    rw [h.sound.insert_eq]
    exact hsettles.matched.congr rfl rfl rfl rfl
  · intro htiers k' v hfind
    show (c.insert w k value).state.settings.codec.RoundTrips v
    rw [hsetup.settings]
    have hfront := Lru.find?_of_settle hfind
    rw [← Lru.toFront_without] at hfront
    exact h.codec_insert htiers (hvalue htiers) k' v hfront
  · show departing twoTiers (c.insert w k value).log = _
    rw [h.sound.insert_eq]
    exact hsettles.tells

theorem Mirrors.remove_reply {c : Overflow K V} {w : World} {l : Lru K V}
    (h : Mirrors twoTiers n m c w.area l) (k : K) :
    (c.remove w k).answer = (l.find? k).isSome ∧ departing twoTiers (c.remove w k).log = [] := by
  have hpresent : (l.find? k).isSome = (c.inMemory k || c.onDisk k) := by
    rw [Lru.isSome_find?, Bool.eq_iff_iff, decide_eq_true_iff]
    exact h.matched.mem_keys h.sound.toTidy k
  have hremoved := h.sound.removed w k
  rw [hpresent]
  generalize c.remove w k = s at hremoved
  cases hremoved with
  | absent hmemory hdisk =>
    rw [hmemory, hdisk]
    exact ⟨rfl, rfl⟩
  | expired hget hx =>
    rw [h.expiration hget] at hx
    cases hx
  | fromMemory hget hlive =>
    rw [inMemory_of_get? hget]
    exact ⟨rfl, departing_removed twoTiers k _⟩
  | fromDisk hmemory hdisk hcontains =>
    rw [onDisk_of_disk hdisk, hcontains, Bool.or_true]
    exact ⟨rfl, departing_removed twoTiers k _⟩

theorem Mirrors.remove {c : Overflow K V} {w : World} {l : Lru K V}
    (h : Mirrors twoTiers n m c w.area l) (k : K) :
    Mirrored twoTiers n m (l.serve (.remove k)) (c.serve w (.remove k)) := by
  have hcleared := h.matched.cleared h.sound k
  have hundisturbed := h.undisturbed.cleared (w := w) k
  obtain ⟨hanswer, htells⟩ := h.remove_reply k
  refine ⟨⟨h.sound.remove w k, h.fits.remove h.sound w k, ?_, ?_, h.capacity, ?_⟩, ?_, htells⟩
  · show (c.remove w k).state.Undisturbed twoTiers n m (c.remove w k).world.area
    rw [h.sound.remove_state, h.sound.remove_world]
    exact hundisturbed.congr rfl rfl
  · show Matches (c.remove w k).state (c.remove w k).world.area (l.without k)
    rw [h.sound.remove_state, h.sound.remove_world]
    exact hcleared.congr rfl rfl rfl rfl
  · intro htiers k' v hfind
    show (c.remove w k).state.settings.codec.RoundTrips v
    rw [(h.sound.sameSetup_remove w k).settings]
    have hfind : (l.without k).find? k' = some v := hfind
    rw [Lru.find?_without] at hfind
    split at hfind
    · cases hfind
    · exact h.codec htiers k' v hfind
  · show MapReply.truth (c.remove w k).answer = MapReply.truth (l.find? k).isSome
    rw [hanswer]

theorem Mirrors.absent {c : Overflow K V} {area : FileArea} {l : Lru K V}
    (h : Mirrors twoTiers n m c area l) {k : K} (hfind : l.find? k = none) :
    c.inMemory k = false ∧ c.onDisk k = false := by
  rw [Lru.find?_eq_none_iff, h.matched.mem_keys h.sound.toTidy, Bool.not_eq_true,
    Bool.or_eq_false_iff] at hfind
  exact hfind

theorem Mirrors.get_answer {c : Overflow K V} {w : World} {l : Lru K V}
    (h : Mirrors twoTiers n m c w.area l) (k : K) :
    (c.get w k).answer.map Shared.value = l.find? k := by
  have hview := h.matched.values k
  rw [Overflow.get_answer]
  unfold view? at hview
  unfold peek
  cases hget : c.entries.get? k with
  | some e =>
    rw [hget] at hview
    simp only [h.expiration hget]
    rw [(h.matched.entry hget).2]
    rfl
  | none =>
    rw [hget] at hview
    have hview : (c.disk.bind fun t => t.view? c.settings.codec w.area k) = _ := hview
    simp only [hview, h.undisturbed.timeToIdle]
    cases l.find? k with
    | none => rfl
    | some v => rfl

theorem Mirrors.hit {c : Overflow K V} {w : World} {l : Lru K V}
    (h : Mirrors twoTiers n m c w.area l) {k : K} {e : Entry V}
    (hget : c.entries.get? k = some e) (c' : Overflow K V) (hsettings : c'.settings = c.settings)
    (hentries : c'.entries = c.entries.insert k { e with stamps := c.touched w e.stamps })
    (horder : c'.order = c.order.moveToFront k) (hdisk : c'.disk = c.disk) :
    Matches c' w.area (l.toFront k e.value.value) := by
  have hnot := h.sound.not_onDisk hget
  have hvacant := h.sound.dropMemory hnot
  have hcleared := h.matched.cleared h.sound k
  rw [(h.sound.toTidy.dropMemory k).dropDisk_eq_self hnot,
    h.sound.clearedWorld_eq_self w hnot] at hcleared
  have htouched : c.touched w e.stamps = ⟨0, 0⟩ := by
    unfold touched
    rw [h.undisturbed.timeToIdle]
    exact (h.matched.entry hget).1
  have hfront := hcleared.atFront (e := { e with stamps := c.touched w e.stamps }) hvacant htouched
  have hweight : c.order.weight? k = some e.weight := by
    rw [h.sound.weights, hget]
    rfl
  rw [Lru.toFront_without] at hfront
  refine hfront.congr hsettings ?_ ?_ hdisk
  · rw [hentries]
    exact (Table.insert_erase c.entries k _).symm
  · rw [horder, Recency.moveToFront_eq hweight]
    exact (Recency.pushFront_remove c.order k e.weight).symm

theorem Mirrors.length_keys {c : Overflow K V} {area : FileArea} {l : Lru K V}
    (h : Mirrors twoTiers n m c area l) : l.keys.length ≤ l.capacity := by
  have hmemory := h.memory_length
  have hdisk := h.disk_length
  rw [h.matched.keys, List.length_append, h.capacity]
  omega

theorem Mirrors.codec_toFront {c : Overflow K V} {area : FileArea} {l : Lru K V}
    (h : Mirrors twoTiers n m c area l) {k : K} {v : V} (hfind : l.find? k = some v)
    (htiers : twoTiers = true) (k' : K) (v' : V) (hfind' : (l.toFront k v).find? k' = some v') :
    c.settings.codec.RoundTrips v' := by
  rw [Lru.find?_toFront] at hfind'
  split at hfind'
  · exact h.codec htiers k v' (hfind.trans hfind')
  · exact h.codec htiers k' v' hfind'

/-- A hit on disk makes the key the most recent too, and as it leaves its place there, nothing is pushed
off the disk by what is spilled in its stead. -/
theorem Mirrors.promoted {c : Overflow K V} {w : World} {l : Lru K V}
    (h : Mirrors twoTiers n m c w.area l) {k : K} {t : DiskTier K} {stamps : Timestamps} {v : V}
    (hget : c.entries.get? k = none) (hdisk : c.disk = some t) (hfind : l.find? k = some v)
    (hstamps : stamps = ⟨0, 0⟩) (value : Shared V) (hvalue : value.value = v) (w' : World)
    (harea : w'.area = (t.deleteSlot w.area k).2) :
    Settles twoTiers n m (l.toFront k v)
      ((c.lifted t k).takeIn w' k ⟨value, c.weigh v, c.touched w stamps⟩) := by
  have hmemory : c.inMemory k = false := not_inMemory_of_get? hget
  have hcleared := h.matched.cleared h.sound k
  have hundisturbed := h.undisturbed.cleared (w := w) k
  have hclearedArea : (c.clearedWorld w k).area = w'.area := by
    rw [clearedWorld_of_disk hdisk, harea]
    exact (h.sound.disk t hdisk).remove_area_eq w.area k
  rw [h.sound.toTidy.dropMemory_eq_self hmemory, hclearedArea, dropDisk_eq hdisk]
    at hcleared hundisturbed
  have hlifted : Matches (c.lifted t k) w'.area (l.without k) := hcleared.congr rfl rfl rfl rfl
  have htouched : c.touched w stamps = ⟨0, 0⟩ := by
    unfold touched
    rw [h.undisturbed.timeToIdle]
    exact hstamps
  have hroom : (c.lifted t k).diskOrder.length ≤ m := by
    have hlength := h.disk_length
    rw [diskOrder_of_disk hdisk] at hlength
    have hwithout : (c.lifted t k).diskOrder = (t.order.remove k).keys :=
      diskOrder_of_disk (t := t.without k) rfl
    rw [hwithout, Recency.keys_remove]
    exact Nat.le_trans (List.length_filter_le _ _) hlength
  have hsettles := hlifted.takeIn (w := w') (e := ⟨value, c.weigh v, c.touched w stamps⟩)
    (lifted_vacant h.sound hget hdisk) (hundisturbed.congr rfl rfl) htouched h.capacity
    h.memory_length hroom
  have hvalue' : (⟨value, c.weigh v, c.touched w stamps⟩ : Entry V).value.value = v := hvalue
  rw [hvalue', Lru.toFront_without] at hsettles
  exact hsettles (h.codec_toFront hfind)

/-- A look-up of what the map knows makes its key the most recent and pushes nothing out. -/
theorem Mirrors.find {c : Overflow K V} {w : World} {l : Lru K V}
    (h : Mirrors twoTiers n m c w.area l) {k : K} {v : V} (hfind : l.find? k = some v) :
    (c.find w k).state.Undisturbed twoTiers n m (c.find w k).world.area ∧
      Matches (c.find w k).state (c.find w k).world.area (l.toFront k v) ∧
      departing twoTiers (c.find w k).log = [] := by
  have hanswer : (c.find w k).answer.map Shared.value = some v := (h.get_answer k).trans hfind
  have hsettle : (l.toFront k v).settle = (l.toFront k v, []) :=
    Lru.settle_of_length_le (Nat.le_trans (Lru.length_toFront hfind) h.length_keys)
  have hfound := find_found c w k
  generalize c.find w k = s at hfound hanswer
  cases hfound with
  | absent hmemory hdisk => cases hanswer
  | gone hs => cases hanswer
  | hit hget hlive =>
    obtain rfl := Option.some.inj hanswer
    exact ⟨h.undisturbed.congr rfl rfl, h.hit hget _ rfl rfl rfl rfl, by cases twoTiers <;> rfl⟩
  | @promoted t bytes stamps v' hget hdisk hstamps hlive hcontent hread =>
    obtain rfl := Option.some.inj hanswer
    have hzero : stamps = ⟨0, 0⟩ := by
      have hview := h.matched.values k
      simp only [view?, hget, hdisk, hfind, Option.bind_some, DiskTier.view?, hstamps, hcontent,
        hread, Except.toOption, Option.map_some] at hview
      exact (Prod.mk.inj (Option.some.inj hview)).1
    have hsettles := h.promoted hget hdisk hfind hzero ⟨w.nextId, v'⟩ rfl
      (World.share { w with area := (t.deleteSlot w.area k).2 } v').2 rfl
    refine ⟨hsettles.undisturbed, ?_, ?_⟩
    · have hmatched := hsettles.matched
      rw [hsettle] at hmatched
      exact hmatched
    · have htells := hsettles.tells
      rw [hsettle] at htells
      exact htells

theorem Mirrors.get {c : Overflow K V} {w : World} {l : Lru K V}
    (h : Mirrors twoTiers n m c w.area l) (k : K) :
    Mirrored twoTiers n m (l.serve (.get k)) (c.serve w (.get k)) := by
  have hanswer := h.get_answer k
  have hsettings := (h.sound.sameSetup_get w k).settings
  have hsound := h.sound.get w k
  have hfits := h.fits.get h.sound w k
  cases hfind : l.find? k with
  | none =>
    obtain ⟨hmemory, hdisk⟩ := h.absent hfind
    have hserve : l.serve (.get k) = ⟨.value none, l, []⟩ := by simp only [Lru.serve, hfind]
    have hget : c.get w k = (Step.pure none c w : Step (Overflow K V) (Eviction K V) _).mapState
        (countLookup none) := by
      rw [get_eq, find_of_absent w hmemory hdisk]
      rfl
    rw [hget] at hsound hfits hsettings
    rw [hserve]
    show Mirrored twoTiers n m _ ((c.get w k).mapAnswer .value)
    rw [hget]
    exact ⟨⟨hsound, hfits, h.undisturbed.congr rfl rfl, h.matched.congr rfl rfl rfl rfl,
      h.capacity, h.codec⟩, rfl, rfl⟩
  | some v =>
    have hserve : l.serve (.get k) = ⟨.value (some v), l.toFront k v, []⟩ := by
      simp only [Lru.serve, hfind]
    obtain ⟨hundisturbed, hmatched, htells⟩ := h.find hfind
    rw [hserve]
    rw [get_eq] at hanswer hsound hfits hsettings
    refine ⟨⟨hsound, hfits, hundisturbed.congr rfl rfl, hmatched.congr rfl rfl rfl rfl,
      h.capacity, ?_⟩, ?_, htells⟩
    · intro htiers k' v' hfind'
      have hcodec := h.codec_toFront hfind htiers k' v' hfind'
      rw [← hsettings] at hcodec
      exact hcodec
    · show MapReply.value ((c.find w k).answer.map Shared.value) = .value (some v)
      rw [← hfind, ← hanswer]
      rfl

theorem Mirrors.purgeExpired {c : Overflow K V} {w : World} {l : Lru K V}
    (h : Mirrors twoTiers n m c w.area l) : c.purgeExpired w = .pure () c w := by
  unfold Overflow.purgeExpired timeless
  rw [h.undisturbed.timeToLive, h.undisturbed.timeToIdle]
  rfl

theorem Mirrors.keys_perm {c : Overflow K V} {area : FileArea} {l : Lru K V}
    (h : Mirrors twoTiers n m c area l) : c.keyIndex.keys.Perm l.keys := by
  refine Table.keys_perm (h.matched.nodup h.sound.toTidy) fun k => ?_
  rw [h.sound.index]
  exact (h.matched.mem_keys h.sound.toTidy k).symm

theorem Mirrors.contains {c : Overflow K V} {w : World} {l : Lru K V}
    (h : Mirrors twoTiers n m c w.area l) (k : K) : c.contains w k = (l.find? k).isSome := by
  have hpresent : c.keyIndex.contains k = (l.find? k).isSome := by
    rw [Lru.isSome_find?, h.sound.index, Bool.eq_iff_iff, decide_eq_true_iff]
    exact (h.matched.mem_keys h.sound.toTidy k).symm
  have htimeless : c.timeless = true := by
    unfold timeless
    rw [h.undisturbed.timeToLive, h.undisturbed.timeToIdle]
    rfl
  unfold Overflow.contains
  rw [hpresent, htimeless]
  cases (l.find? k).isSome <;> rfl

theorem Mirrors.serve {c : Overflow K V} {w : World} {l : Lru K V}
    (h : Mirrors twoTiers n m c w.area l) (r : MapRequest K (Shared V))
    (hr : ∀ k value, r = .insert k value → twoTiers = true →
      c.settings.codec.RoundTrips value.value) :
    Mirrored twoTiers n m (l.serve (r.map Shared.value)) (c.serve w r) := by
  cases r with
  | insert k value => exact h.insert k value (hr k value rfl)
  | remove k => exact h.remove k
  | get k => exact h.get k
  | contains k => exact ⟨h, congrArg MapReply.truth (h.contains k), rfl⟩
  | keys =>
    show Mirrored twoTiers n m _ ((c.keys w).mapAnswer .keys)
    unfold Overflow.keys
    rw [h.purgeExpired]
    exact ⟨h, h.keys_perm, rfl⟩
  | size =>
    show Mirrored twoTiers n m _ ((c.size w).mapAnswer .count)
    unfold Overflow.size
    rw [h.purgeExpired]
    refine ⟨h, congrArg MapReply.count ?_, rfl⟩
    rw [← h.keys_perm.length_eq, Table.length_keys]
    rfl

/-! ## Sequences of requests -/

/-- Requests, each so many nanoseconds after the one before, as what happens to a cache. -/
def turnsOf (calls : List (Nat × MapRequest K (Shared V))) : List (Turn K V) :=
  calls.map fun call => ⟨call.1, .request call.2⟩

def Record.Mirrors (twoTiers : Bool) (r : Record K V) (o : Lru.Served K V) : Prop :=
  (r.reply.map Shared.value).Agrees o.reply ∧
    departing twoTiers r.events = o.evicted.map (told twoTiers)

theorem Mirrors.run {codec : Codec V} (calls : List (Nat × MapRequest K (Shared V)))
    {c : Overflow K V} {w : World} {l : Lru K V} (h : Mirrors twoTiers n m c w.area l)
    (hsettings : c.settings.codec = codec)
    (hcalls : twoTiers = true → ∀ wait k value, (wait, .insert k value) ∈ calls →
      codec.RoundTrips value.value) :
    List.Forall₂ (Record.Mirrors twoTiers) (c.run w (turnsOf calls)).log
      (l.run (calls.map fun call => call.2.map Shared.value)) := by
  induction calls generalizing c w l with
  | nil => exact .nil
  | cons call calls ih =>
    obtain ⟨wait, r⟩ := call
    have hserved := Mirrors.serve (w := w.advance wait) h r (by
      intro k value heq htiers
      rw [hsettings]
      exact hcalls htiers wait k value (by simp [heq]))
    have hsame := (h.sound.sameSetup_perform (w.advance wait) (.request r)).settings
    refine .cons ⟨hserved.agrees, hserved.tells⟩ (ih hserved.mirrors ?_ ?_)
    · rw [← hsettings]
      exact congrArg OverflowSettings.codec hsame
    · intro htiers wait' k value hmem
      exact hcalls htiers wait' k value (List.mem_cons_of_mem _ hmem)

theorem Built.mirrors {b : Builder} {st : Storage K V} {w w' : World} {c : Overflow K V}
    (h : Built b st w c w') (hlive : b.config.timeToLive = none)
    (hidle : b.config.timeToIdle = none) (hmemory : b.config.memoryBound = .entries n)
    (hone : twoTiers = false → b.config.persistence = .none ∧ m = 0)
    (htwo : twoTiers = true → b.config.persistence = .swapOnOverflow ∧
      b.config.diskBound = .entries m ∧ ∀ number name, w.area.unwritable number name = false) :
    Mirrors twoTiers n m c w'.area (Lru.empty (n + m)) := by
  refine ⟨h.sound, h.fits, ?_, ?_, rfl, fun _ k v hfind => by cases hfind⟩
  · cases h with
    | memoryOnly hpersistence =>
      refine ⟨hlive, hidle, hmemory, fun htiers => ⟨rfl, (hone htiers).2⟩, fun htiers => ?_⟩
      rw [(htwo htiers).1] at hpersistence
      cases hpersistence
    | @overDisk place area hpersistence hplace hunwritable =>
      refine ⟨hlive, hidle, hmemory, fun htiers => ?_, fun htiers => ?_⟩
      · rw [(hone htiers).1] at hpersistence
        cases hpersistence
      · obtain ⟨-, hbound, hwritable⟩ := htwo htiers
        refine ⟨_, rfl, hbound, place, rfl, hplace, fun name => ?_⟩
        show area.unwritable place.number name = false
        rw [hunwritable]
        exact hwritable place.number name
  · cases h with
    | memoryOnly hpersistence => exact ⟨rfl, fun k => rfl⟩
    | overDisk hpersistence hplace hunwritable => exact ⟨rfl, fun k => rfl⟩

/-- Memory over disk is one map of both capacities: it replies to any requests, whenever they come, as
that map does, and tells of the keys that leave the disk as the map pushes them out. Memory alone is
one map of its capacity, and tells of the values that leave too. -/
theorem one_lru (b : Builder) (st : Storage K V) {w w' : World} {c : Overflow K V}
    (hbuilt : b.buildOverflow st w = (.ok c, w')) (hlive : b.config.timeToLive = none)
    (hidle : b.config.timeToIdle = none) (n : Nat) (hmemory : b.config.memoryBound = .entries n)
    (calls : List (Nat × MapRequest K (Shared V))) :
    (b.config.persistence = .swapOnOverflow → ∀ m, b.config.diskBound = .entries m →
      (∀ number name, w.area.unwritable number name = false) →
      (∀ wait k value, (wait, .insert k value) ∈ calls → st.codec.RoundTrips value.value) →
      List.Forall₂ (fun r o => (r.reply.map Shared.value).Agrees o.reply ∧
          departures .capacity r.events = o.evicted.map fun out => (out.1, none))
        (c.run w' (turnsOf calls)).log
        ((Lru.empty (n + m)).run (calls.map fun call => call.2.map Shared.value))) ∧
    (b.config.persistence = .none →
      List.Forall₂ (fun r o => (r.reply.map Shared.value).Agrees o.reply ∧
          departures .overflow r.events = o.evicted.map fun out => (out.1, some out.2))
        (c.run w' (turnsOf calls)).log
        ((Lru.empty n).run (calls.map fun call => call.2.map Shared.value))) := by
  have hstart := Builder.built hbuilt
  have hcodec : c.settings.codec = st.codec := by
    rw [hstart.setup.1]
    rfl
  constructor
  · intro hpersistence m hbound hwritable hvalues
    have hmirrors : Mirrors true n m c w'.area (Lru.empty (n + m)) :=
      hstart.mirrors hlive hidle hmemory nofun fun _ => ⟨hpersistence, hbound, hwritable⟩
    exact hmirrors.run calls hcodec fun _ => hvalues
  · intro hpersistence
    have hmirrors : Mirrors false n 0 c w'.area (Lru.empty n) :=
      hstart.mirrors hlive hidle hmemory (fun _ => ⟨hpersistence, rfl⟩) nofun
    exact hmirrors.run calls hcodec nofun

/-- Three keys in a cache for two, with a look-up on disk in between. -/
theorem one_lru_pair : List.Forall₂ (fun r o => (r.reply.map Shared.value).Agrees o.reply ∧
      departures .capacity r.events = o.evicted.map fun out => (out.1, none))
    ((pairCache none none).run pairWorld (turnsOf
      [(0, .insert 1 ⟨0, 7⟩), (0, .insert 2 ⟨1, 8⟩), (5, .get 1), (0, .insert 3 ⟨2, 9⟩),
        (0, .contains 2), (0, .remove 1), (0, .keys)])).log
    ((Lru.empty 2).run
      [.insert 1 7, .insert 2 8, .get 1, .insert 3 9, .contains 2, .remove 1, .keys]) :=
  (one_lru (pairBuilder none none) byteStorage (pair_built none none) rfl rfl 1 rfl
    [(0, .insert 1 ⟨0, 7⟩), (0, .insert 2 ⟨1, 8⟩), (5, .get 1), (0, .insert 3 ⟨2, 9⟩),
      (0, .contains 2), (0, .remove 1), (0, .keys)]).1
    rfl 1 rfl (fun _ _ => rfl) fun _ _ value _ => ⟨[value.value], rfl, rfl⟩

end CacheLayer.Overflow
