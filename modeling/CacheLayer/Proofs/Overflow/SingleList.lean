import CacheLayer.Proofs.Lru
import CacheLayer.Proofs.Overflow.Run
import CacheLayer.Proofs.Overflow.View

/-!
# Two tiers are one list

Under bounds on the number of entries, without timeouts and with a disk tier that does what it is
asked to, a two-tier cache cannot be told from an `Lru` map of both capacities: the list of that map
is the recency list of the memory tier followed by the one of the disk tier. Spilling the last key of
the first list to the front of the second leaves the whole as it is.

* `Matches` : the lists are the list, and what lies under the keys are its values.
* `Matches.cleared`, `Matches.atFront` : clearing a key and storing a new one.
* `Matches.settles` : pushing keys out of memory and off the disk pushes them off the end of the list.
-/

namespace CacheLayer

/-- The value can be written, and reading what was written gives it back. -/
def Codec.RoundTrips {α : Type u} (c : Codec α) (a : α) : Prop :=
  ∃ bytes, c.encode a = .ok bytes ∧ c.read bytes = .ok a

variable {K : Type u} {V : Type v}

/-- The tier is open, its directory exists and every file in it can be written. -/
def DiskTier.Healthy (t : DiskTier K) (area : FileArea) : Prop :=
  ∃ place, t.place = some place ∧ area.hasTier place.number = true ∧
    ∀ name, area.unwritable place.number name = false

theorem DiskTier.Healthy.accepts {t : DiskTier K} {area : FileArea} (h : t.Healthy area) :
    t.accepts area = true := by
  obtain ⟨place, hplace, hhas, hwritable⟩ := h
  simp [DiskTier.accepts, hplace, hhas, hwritable]

theorem DiskTier.Healthy.congr {t t' : DiskTier K} {a b : FileArea} (h : t.Healthy a)
    (hsame : FileArea.SameTiers a b) (hplace : t'.place = t.place) : t'.Healthy b := by
  obtain ⟨place, hopen, hhas, hwritable⟩ := h
  refine ⟨place, hplace.trans hopen, (hsame.1 place.number).trans hhas, fun name => ?_⟩
  rw [hsame.2]
  exact hwritable name

/-- Under a bound on the number of entries, a new key comes first and the keys beyond the bound leave
from the end. -/
theorem DiskTier.Sound.listed_entries [DecidableEq K] {t : DiskTier K} (h : t.Sound) {m : Nat}
    (hbound : t.bound = .entries m) {k : K} (hk : k ∉ t.order.keys) (bytes : Nat) :
    (t.listed k bytes).1.keys = (k :: t.order.keys).take m ∧
      (t.listed k bytes).2 = ((k :: t.order.keys).drop m).reverse := by
  have htrim := (h.order.pushFront k bytes).trim_entries m (Nat.le_refl _)
  rw [Recency.keys_pushFront_of_not_mem hk] at htrim
  unfold DiskTier.listed
  rw [hbound]
  exact htrim

namespace Overflow

variable [DecidableEq K]

/-! ## The match -/

def diskOrder (c : Overflow K V) : List K :=
  match c.disk with
  | none => []
  | some t => t.order.keys

omit [DecidableEq K] in
theorem diskOrder_of_disk {c : Overflow K V} {t : DiskTier K} (h : c.disk = some t) :
    c.diskOrder = t.order.keys := by simp only [diskOrder, h]

omit [DecidableEq K] in
theorem diskOrder_of_none {c : Overflow K V} (h : c.disk = none) : c.diskOrder = [] := by
  simp only [diskOrder, h]

/-- Nothing but the number of entries makes an entry leave its tier: there are no timeouts, and the
disk tier, where there are two tiers, takes what it is given. -/
structure Undisturbed (twoTiers : Bool) (n m : Nat) (c : Overflow K V) (area : FileArea) : Prop where
  timeToLive : c.settings.timeToLive = none
  timeToIdle : c.settings.timeToIdle = none
  memoryBound : c.settings.memoryBound = .entries n
  memoryOnly : twoTiers = false → c.disk = none ∧ m = 0
  overDisk : twoTiers = true →
    ∃ t, c.disk = some t ∧ t.bound = .entries m ∧ t.Healthy area

/-- The lists of the tiers one after the other are the list of the map, with the same values. -/
structure Matches (c : Overflow K V) (area : FileArea) (l : Lru K V) : Prop where
  keys : l.keys = c.order.keys ++ c.diskOrder
  values : ∀ k, c.view? area k = (l.find? k).map fun v => (⟨0, 0⟩, v)

theorem Tidy.mem_diskOrder {c : Overflow K V} (h : c.Tidy) (k : K) :
    k ∈ c.diskOrder ↔ c.onDisk k = true := by
  cases hdisk : c.disk with
  | none => simp [diskOrder_of_none hdisk, onDisk_of_none hdisk]
  | some t => rw [diskOrder_of_disk hdisk, onDisk_of_disk hdisk, (h.disk t hdisk).keys]

theorem Tidy.nodup_lists {c : Overflow K V} (h : c.Tidy) :
    (c.order.keys ++ c.diskOrder).Nodup := by
  refine List.nodup_append'.2 ⟨h.order.nodup_keys, ?_, ?_⟩
  · cases hdisk : c.disk with
    | none =>
      rw [diskOrder_of_none hdisk]
      exact List.nodup_nil
    | some t =>
      rw [diskOrder_of_disk hdisk]
      exact (h.disk t hdisk).order.nodup_keys
  · intro k hmemory hdisk
    rw [h.mem_diskOrder, h.apart k ((h.mem_order k).1 hmemory)] at hdisk
    cases hdisk

theorem Matches.nodup {c : Overflow K V} {area : FileArea} {l : Lru K V} (hm : Matches c area l)
    (h : c.Tidy) : l.keys.Nodup := by
  rw [hm.keys]
  exact h.nodup_lists

theorem Matches.mem_keys {c : Overflow K V} {area : FileArea} {l : Lru K V}
    (hm : Matches c area l) (h : c.Tidy) (k : K) :
    k ∈ l.keys ↔ (c.inMemory k || c.onDisk k) = true := by
  rw [hm.keys, List.mem_append, h.mem_order, h.mem_diskOrder, Bool.or_eq_true]

theorem Matches.entry {c : Overflow K V} {area : FileArea} {l : Lru K V} (hm : Matches c area l)
    {k : K} {e : Entry V} (hget : c.entries.get? k = some e) :
    e.stamps = ⟨0, 0⟩ ∧ l.find? k = some e.value.value := by
  have hview := hm.values k
  simp only [view?, hget] at hview
  obtain ⟨v, hv, heq⟩ := Option.map_eq_some_iff.1 hview.symm
  obtain ⟨hstamps, rfl⟩ := Prod.mk.inj heq
  exact ⟨hstamps.symm, hv⟩

/-! ## Pushing out -/

def departures (reason : EvictionReason) (events : List (Eviction K V)) : List (K × Option V) :=
  (events.filter fun e => decide (e.reason = reason)).map fun e =>
    (e.key, e.value.map Shared.value)

omit [DecidableEq K] in
theorem departures_capacity (ks : List K) :
    departures .capacity (ks.map fun k => (⟨k, none, .capacity⟩ : Eviction K V)) =
      ks.map fun k => (k, none) := by
  unfold departures
  rw [List.filter_eq_self.2, List.map_map]
  · rfl
  · intro e he
    obtain ⟨k, -, rfl⟩ := List.mem_map.1 he
    rfl

/-- Where there are two tiers keys leave the disk, and nobody looks at their values any more. -/
def departing (twoTiers : Bool) (events : List (Eviction K V)) : List (K × Option V) :=
  departures (if twoTiers then .capacity else .overflow) events

/-- What is told of a key that the map pushes out. -/
def told (twoTiers : Bool) (out : K × V) : K × Option V :=
  (out.1, if twoTiers then none else some out.2)

def settled (c : Overflow K V) (w : World) : Step (Overflow K V) (Eviction K V) Unit :=
  { c with order :=
      (Recency.trim c.settings.memoryBound.exceededBy c.order.size c.order).1 }.spillAll w
    (Recency.trim c.settings.memoryBound.exceededBy c.order.size c.order).2

theorem takeIn_eq_settled (c : Overflow K V) (w : World) (k : K) (e : Entry V) :
    c.takeIn w k e = (c.atFront k e).settled w := rfl

theorem settled_cases {c : Overflow K V} (h : c.Sound) {n : Nat}
    (hbound : c.settings.memoryBound = .entries n) (hroom : c.order.keys.length ≤ n + 1)
    (w : World) :
    (c.order.keys.length ≤ n ∧ c.settled w = .pure () c w) ∨
    ∃ x e, c.order.keys = (c.order.remove x).keys ++ [x] ∧ (c.order.remove x).keys.length = n ∧
      c.entries.get? x = some e ∧ c.settled w = (c.dropMemory x).spill w x e := by
  unfold settled
  rw [hbound]
  rcases h.order.trim_cases (Nat.le_refl c.order.size) hroom with
    ⟨hfits, htrim⟩ | ⟨x, hkeys, hlength, htrim⟩
  · refine .inl ⟨hfits, ?_⟩
    rw [htrim]
    rfl
  · have hmem : x ∈ c.order.keys := by
      rw [hkeys]
      exact List.mem_append_right _ (List.mem_singleton_self x)
    obtain ⟨e, hget⟩ := Option.isSome_iff_exists.1 ((h.mem_order x).1 hmem)
    refine .inr ⟨x, e, hkeys, hlength, hget, ?_⟩
    rw [htrim]
    show Overflow.spillAll _ w [x] = _
    rw [spillAll]
    simp only [hget]
    unfold Step.bind spillAll Step.pure
    simp only [List.append_nil]
    rfl

/-- What pushing keys out of the tiers keeps: the circumstances and the match, and it tells of the
keys that the map pushes out. -/
structure Settles (twoTiers : Bool) (n m : Nat) (l : Lru K V)
    (s : Step (Overflow K V) (Eviction K V) Unit) : Prop where
  undisturbed : s.state.Undisturbed twoTiers n m s.world.area
  matched : Matches s.state s.world.area l.settle.1
  tells : departing twoTiers s.log = l.settle.2.map (told twoTiers)

theorem Matches.live {twoTiers : Bool} {n m : Nat} {c : Overflow K V} {w : World} {l : Lru K V} {k : K}
    {e : Entry V} (hm : Matches c w.area l) (hu : c.Undisturbed twoTiers n m w.area)
    (hget : c.entries.get? k = some e) : (c.dropMemory k).expiration w e = none := by
  show e.stamps.expiration w.now c.settings.timeToIdle = none
  rw [(hm.entry hget).1, hu.timeToIdle]
  rfl

theorem Matches.settles_fitting {twoTiers : Bool} {n m : Nat} {c : Overflow K V} {w : World}
    {l : Lru K V} (hm : Matches c w.area l) (hu : c.Undisturbed twoTiers n m w.area)
    (hfits : l.keys.length ≤ l.capacity) : Settles twoTiers n m l (.pure () c w) := by
  have hsettle := Lru.settle_of_length_le hfits
  refine ⟨hu, ?_, ?_⟩
  · rw [hsettle]
    exact hm
  · rw [hsettle]
    rfl

theorem Matches.settles_dropped {m n : Nat} {c : Overflow K V} {w : World} {l : Lru K V} {x : K}
    {e : Entry V} (hm : Matches c w.area l) (h : c.Sound) (hu : c.Undisturbed false n m w.area)
    (hcapacity : l.capacity = n + m) (hkeys : c.order.keys = (c.order.remove x).keys ++ [x])
    (hlength : (c.order.remove x).keys.length = n) (hget : c.entries.get? x = some e) :
    Settles false n m l ((c.dropMemory x).spill w x e) := by
  obtain ⟨hdisk, rfl⟩ := hu.memoryOnly rfl
  have hfind := (hm.entry hget).2
  have hlive := hm.live hu hget
  have hlist : l.keys = (c.order.remove x).keys ++ [x] := by
    rw [hm.keys, diskOrder_of_none hdisk, List.append_nil]
    exact hkeys
  have hdrop : l.keys.drop l.capacity = [x] := by
    rw [hlist, hcapacity, Nat.add_zero, ← hlength, List.drop_left]
  have htake : l.keys.take l.capacity = (c.order.remove x).keys := by
    rw [hlist, hcapacity, Nat.add_zero, ← hlength, List.take_left]
  have hspilled := (h.toTidy.dropMemory x).spilled w x e
  generalize (c.dropMemory x).spill w x e = s at hspilled
  cases hspilled with
  | expired x' hx =>
    rw [hlive] at hx
    cases hx
  | unencodable hlive t hsome => cases hdisk.symm.trans hsome
  | refused hlive t hsome => cases hdisk.symm.trans hsome
  | written hlive t hsome => cases hdisk.symm.trans hsome
  | dropped hlive hnone =>
    refine ⟨⟨hu.timeToLive, hu.timeToIdle, hu.memoryBound, fun _ => ⟨hdisk, rfl⟩, nofun⟩,
      ⟨?_, fun k => ?_⟩, ?_⟩
    · rw [Lru.keys_settle, htake]
      show _ = (c.order.remove x).keys ++ c.diskOrder
      rw [diskOrder_of_none hdisk, List.append_nil]
    · rw [Lru.find?_settle (hm.nodup h.toTidy), hdrop]
      refine (view?_dropMemory_of_none hdisk w.area x k).trans ?_
      rw [hm.values]
      simp only [List.mem_singleton]
      split
      · rfl
      · rfl
    · rw [Lru.settle_of_drop (hm.nodup h.toTidy) hdrop hfind]
      simp [departing, departures, told]

/-- With a disk tier the last key in memory becomes the first on disk, whose last key is pushed out if
there are too many. -/
theorem Matches.settles_written {m n : Nat} {c : Overflow K V} {w : World} {l : Lru K V} {x : K}
    {e : Entry V} (hm : Matches c w.area l) (h : c.Sound) (hu : c.Undisturbed true n m w.area)
    (hcapacity : l.capacity = n + m)
    (hcodec : ∀ k v, l.find? k = some v → c.settings.codec.RoundTrips v)
    (hkeys : c.order.keys = (c.order.remove x).keys ++ [x])
    (hlength : (c.order.remove x).keys.length = n) (hget : c.entries.get? x = some e) :
    Settles true n m l ((c.dropMemory x).spill w x e) := by
  obtain ⟨t, hdisk, hbound, hhealthy⟩ := hu.overDisk rfl
  have hfind := (hm.entry hget).2
  obtain ⟨bytes, hencode, hread⟩ := hcodec x _ hfind
  have ht := h.disk t hdisk
  have hlive := hm.live hu hget
  have hnot : x ∉ t.order.keys := by
    rw [← ht.keys, ← onDisk_of_disk hdisk, h.not_onDisk hget]
    exact Bool.false_ne_true
  -- the whole list, in which nothing moves when `x` moves down
  have hlist : l.keys = (c.order.remove x).keys ++ (x :: t.order.keys) := by
    rw [hm.keys, hkeys, diskOrder_of_disk hdisk, List.append_assoc]
    rfl
  obtain ⟨hkept, hpopped⟩ := ht.listed_entries hbound hnot bytes.length
  have htake : l.keys.take l.capacity =
      (c.order.remove x).keys ++ (t.listed x bytes.length).1.keys := by
    rw [hlist, hcapacity, ← hlength, List.take_length_add_append, hkept]
  have hdrop : l.keys.drop l.capacity = (t.listed x bytes.length).2.reverse := by
    rw [hlist, hcapacity, ← hlength, List.drop_length_add_append, hpopped, List.reverse_reverse]
  have hspilled := (h.toTidy.dropMemory x).spilled w x e
  generalize (c.dropMemory x).spill w x e = s at hspilled
  cases hspilled with
  | expired x' hx =>
    rw [hlive] at hx
    cases hx
  | dropped hlive hnone => cases hnone.symm.trans hdisk
  | unencodable hlive t' hsome fault hfault => cases hfault.symm.trans hencode
  | refused hlive t' hsome bytes' hencode' haccepts =>
    obtain rfl := Option.some.inj (hdisk.symm.trans hsome)
    rw [hhealthy.accepts] at haccepts
    cases haccepts
  | written hlive t' hsome bytes' hencode' haccepts =>
    obtain rfl := Option.some.inj (hdisk.symm.trans hsome)
    obtain rfl := Except.ok.inj (hencode.symm.trans hencode')
    refine ⟨⟨hu.timeToLive, hu.timeToIdle, hu.memoryBound, nofun, fun _ =>
      ⟨_, rfl, hbound, hhealthy.congr (t.write_sameTiers w.area x bytes e.stamps) rfl⟩⟩,
      ⟨?_, fun k => ?_⟩, ?_⟩
    · rw [Lru.keys_settle, htake]
      rfl
    · rw [Lru.find?_settle (hm.nodup h.toTidy), hdrop]
      refine (h.view?_spilled hdisk hget haccepts hread k).trans ?_
      rw [hm.values]
      simp only [List.mem_reverse]
      split
      · rfl
      · rfl
    · have hkeys := l.evicted_settle
      rw [hdrop, List.reverse_reverse] at hkeys
      show departures .capacity ((t.listed x bytes.length).2.map _) = _
      rw [departures_capacity, ← hkeys, List.map_map]
      rfl

/-- With at most one entry too many in memory and a disk tier that is not overfull, pushing keys out of
the tiers pushes them off the end of the list. -/
theorem Matches.settles {twoTiers : Bool} {m n : Nat} {c : Overflow K V} {w : World} {l : Lru K V}
    (hm : Matches c w.area l) (h : c.Sound) (hu : c.Undisturbed twoTiers n m w.area)
    (hcapacity : l.capacity = n + m) (hmemory : c.order.keys.length ≤ n + 1)
    (hdisk : c.diskOrder.length ≤ m)
    (hcodec : twoTiers = true → ∀ k v, l.find? k = some v → c.settings.codec.RoundTrips v) :
    Settles twoTiers n m l (c.settled w) := by
  rcases settled_cases h hu.memoryBound hmemory w with
    ⟨hfits, heq⟩ | ⟨x, e, hkeys, hlength, hget, heq⟩
  · rw [heq]
    refine hm.settles_fitting hu ?_
    rw [hm.keys, List.length_append, hcapacity]
    omega
  · rw [heq]
    cases twoTiers with
    | false => exact hm.settles_dropped h hu hcapacity hkeys hlength hget
    | true => exact hm.settles_written h hu hcapacity (hcodec rfl) hkeys hlength hget

/-! ## Clearing and storing -/

omit [DecidableEq K] in
theorem diskOrder_map {c c' : Overflow K V} {f : DiskTier K → DiskTier K}
    (h : c'.disk = c.disk.map f) {g : List K → List K} (hg : g [] = [])
    (hf : ∀ t, (f t).order.keys = g t.order.keys) : c'.diskOrder = g c.diskOrder := by
  unfold diskOrder
  rw [h]
  cases c.disk with
  | none => exact hg.symm
  | some t => exact hf t

theorem diskOrder_dropDisk (c : Overflow K V) (k : K) :
    (c.dropDisk k).diskOrder = c.diskOrder.filter fun k' => decide (k' ≠ k) :=
  diskOrder_map rfl rfl fun t => Recency.keys_remove t.order k

theorem Matches.cleared {c : Overflow K V} {w : World} {l : Lru K V} (hm : Matches c w.area l)
    (h : c.Sound) (k : K) :
    Matches ((c.dropMemory k).dropDisk k) (c.clearedWorld w k).area (l.without k) where
  keys := by
    rw [Lru.keys_without, hm.keys, List.filter_append, diskOrder_dropDisk, ← Recency.keys_remove]
    rfl
  values k' := by
    rw [h.view?_cleared, Lru.find?_without, hm.values]
    split <;> rfl

theorem Matches.atFront {c : Overflow K V} {area : FileArea} {l : Lru K V} {k : K} {e : Entry V}
    (hm : Matches c area l) (h : c.Vacant k) (hstamps : e.stamps = ⟨0, 0⟩) :
    Matches (c.atFront k e) area (l.toFront k e.value.value) where
  keys := by
    have hdisk : k ∉ c.diskOrder := by
      rw [h.mem_diskOrder, h.notOnDisk]
      exact Bool.false_ne_true
    rw [Lru.keys_toFront, hm.keys, List.filter_append, Recency.filter_ne_of_not_mem hdisk,
      ← List.cons_append]
    rw [← Recency.keys_pushFront c.order k e.weight]
    rfl
  values k' := by
    rw [view?_atFront, Lru.find?_toFront, hm.values, hstamps]
    split <;> rfl

theorem clearedWorld_sameTiers (c : Overflow K V) (w : World) (k : K) :
    FileArea.SameTiers w.area (c.clearedWorld w k).area := by
  unfold clearedWorld
  split
  · exact .refl _
  · exact DiskTier.remove_sameTiers _ _ _

theorem Undisturbed.cleared {twoTiers : Bool} {n m : Nat} {c : Overflow K V} {w : World}
    (hu : c.Undisturbed twoTiers n m w.area) (k : K) :
    Undisturbed twoTiers n m ((c.dropMemory k).dropDisk k) (c.clearedWorld w k).area where
  timeToLive := hu.timeToLive
  timeToIdle := hu.timeToIdle
  memoryBound := hu.memoryBound
  memoryOnly h := by
    obtain ⟨hdisk, hm⟩ := hu.memoryOnly h
    exact ⟨congrArg (Option.map fun t' : DiskTier K => t'.without k) hdisk, hm⟩
  overDisk h := by
    obtain ⟨t, hdisk, hbound, hhealthy⟩ := hu.overDisk h
    refine ⟨t.without k, congrArg (Option.map fun t' : DiskTier K => t'.without k) hdisk, hbound, ?_⟩
    exact hhealthy.congr (clearedWorld_sameTiers c w k) rfl

omit [DecidableEq K] in
theorem Undisturbed.congr {twoTiers : Bool} {n m : Nat} {c c' : Overflow K V} {area : FileArea}
    (hu : c.Undisturbed twoTiers n m area) (hsettings : c'.settings = c.settings)
    (hdisk : c'.disk = c.disk) : c'.Undisturbed twoTiers n m area := by
  refine ⟨?_, ?_, ?_, ?_, ?_⟩
  · rw [hsettings]
    exact hu.timeToLive
  · rw [hsettings]
    exact hu.timeToIdle
  · rw [hsettings]
    exact hu.memoryBound
  · rw [hdisk]
    exact hu.memoryOnly
  · rw [hdisk]
    exact hu.overDisk

theorem Matches.congr {c c' : Overflow K V} {area : FileArea} {l : Lru K V}
    (hm : Matches c area l) (hsettings : c'.settings = c.settings)
    (hentries : c'.entries = c.entries) (horder : c'.order = c.order) (hdisk : c'.disk = c.disk) :
    Matches c' area l := by
  refine ⟨?_, fun k => ?_⟩
  · rw [hm.keys, horder]
    unfold diskOrder
    rw [hdisk]
  · rw [← hm.values k]
    unfold view?
    rw [hsettings, hentries, hdisk]

theorem Matches.takeIn {twoTiers : Bool} {n m : Nat} {c : Overflow K V} {w : World} {l : Lru K V}
    {k : K} {e : Entry V} (hm : Matches c w.area l) (h : c.Vacant k)
    (hu : c.Undisturbed twoTiers n m w.area) (hstamps : e.stamps = ⟨0, 0⟩)
    (hcapacity : l.capacity = n + m) (hmemory : c.order.keys.length ≤ n)
    (hdisk : c.diskOrder.length ≤ m)
    (hcodec : twoTiers = true → ∀ k' v, (l.toFront k e.value.value).find? k' = some v →
      c.settings.codec.RoundTrips v) :
    Settles twoTiers n m (l.toFront k e.value.value) (c.takeIn w k e) := by
  have hroom : (c.atFront k e).order.keys.length ≤ n + 1 := by
    have hsize := Recency.size_pushFront_le c.order k e.weight
    rw [Recency.length_keys] at hmemory ⊢
    show (c.order.pushFront k e.weight).size ≤ n + 1
    omega
  rw [takeIn_eq_settled]
  exact (hm.atFront h hstamps).settles (h.atFront e) (hu.congr rfl rfl) hcapacity hroom hdisk hcodec

end Overflow

end CacheLayer
