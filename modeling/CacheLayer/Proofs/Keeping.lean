import CacheLayer.Proofs.Presence
import CacheLayer.Proofs.Overflow.OneMap

/-!
# Caches that lose nothing

A cache in memory without timeouts keeps what is stored until it is removed. So does a two-tier cache
without timeouts, as long as its tiers have room for every key and its codec reads back what it wrote:
values move between memory and disk, and none leaves. Seen by their values, both are tables.

* `Expiring.Lasting`, `Lru.Holds` : when the maps that the caches resemble are tables.
* `Backend.Keeps` : the cache has the values of a table, and room for as many as its kind allows.
* `Keeps.insert`, `Keeps.remove`, `Keeps.get`, `Keeps.keys`, `Keeps.size` : each request answers as the
  table does.
* `Keeps.use` : a cache that others used keeps some table.
* `keeps_of_volatile`, `keeps_of_tiers` : caches that were just built keep the empty table.
-/

namespace CacheLayer

variable {K : Type u} {V : Type v} [DecidableEq K]

/-! ## Without timeouts nothing expires -/

namespace Expiring

/-- Nothing in the map expires, and its values are those of the table. -/
structure Lasting (m : Expiring K V) (t : Table K V) : Prop where
  timeToLive : m.timeToLive = none
  timeToIdle : m.timeToIdle = none
  entries : ∀ k, (m.entries.get? k).map (fun e => (e.1.value, e.2)) =
    (t.get? k).map fun v => (v, ⟨0, 0⟩)

namespace Lasting

variable {m : Expiring K V} {t : Table K V}

theorem empty : (Expiring.empty none none : Expiring K V).Lasting .empty :=
  ⟨rfl, rfl, fun _ => rfl⟩

theorem stamps (h : m.Lasting t) {k : K} {e : Shared V × Timestamps}
    (hget : m.entries.get? k = some e) : t.get? k = some e.1.value ∧ e.2 = ⟨0, 0⟩ := by
  have hentry := h.entries k
  rw [hget] at hentry
  cases ht : t.get? k with
  | none =>
    rw [ht] at hentry
    cases hentry
  | some v =>
    rw [ht] at hentry
    obtain ⟨hvalue, hstamps⟩ := Prod.mk.inj (Option.some.inj hentry)
    exact ⟨congrArg some hvalue.symm, hstamps⟩

theorem present?_eq (h : m.Lasting t) (now : Nat) (k : K) : m.present? now k = m.entries.get? k := by
  unfold Expiring.present?
  cases hget : m.entries.get? k with
  | none => rfl
  | some e =>
    have hvalid : e.2.valid now m.timeToIdle = true := by
      rw [(h.stamps hget).2, h.timeToIdle]
      rfl
    rw [Option.filter_some, if_pos hvalid]

theorem value (h : m.Lasting t) (now : Nat) (k : K) :
    (m.present? now k).map (fun e => e.1.value) = t.get? k := by
  rw [h.present?_eq]
  cases hget : m.entries.get? k with
  | none =>
    have hentry := h.entries k
    rw [hget] at hentry
    exact (Option.map_eq_none_iff.1 hentry.symm).symm
  | some e => exact (h.stamps hget).1.symm

theorem isSome (h : m.Lasting t) (now : Nat) (k : K) :
    (m.present? now k).isSome = t.contains k := by
  rw [Table.contains_eq, ← h.value now, Option.isSome_map]

theorem insert (h : m.Lasting t) (now : Nat) (k : K) (value : Shared V) :
    (m.serve now (.insert k value)).2.Lasting (t.insert k value.value) := by
  refine ⟨h.timeToLive, h.timeToIdle, fun k' => ?_⟩
  show ((m.entries.insert k (value, .create now m.timeToLive m.timeToIdle)).get? k').map _ = _
  rw [h.timeToLive, h.timeToIdle, Table.get?_insert, Table.get?_insert]
  split
  · rfl
  · exact h.entries k'

theorem remove (h : m.Lasting t) (now : Nat) (k : K) :
    (m.serve now (.remove k)).1 = .truth (t.contains k) ∧
      (m.serve now (.remove k)).2.Lasting (t.erase k) := by
  have hsome := h.isSome now k
  cases hpresent : m.present? now k with
  | none =>
    rw [hpresent] at hsome
    rw [serve_remove_absent hpresent, ← hsome, Table.erase_of_not_contains hsome.symm]
    exact ⟨rfl, h⟩
  | some e =>
    rw [hpresent] at hsome
    rw [serve_remove_present hpresent, ← hsome]
    refine ⟨rfl, h.timeToLive, h.timeToIdle, fun k' => ?_⟩
    show ((m.entries.erase k).get? k').map _ = _
    rw [Table.get?_erase, Table.get?_erase]
    split
    · rfl
    · exact h.entries k'

theorem get (h : m.Lasting t) (now : Nat) (k : K) :
    ((m.serve now (.get k)).1.map Shared.value) = .value (t.get? k) ∧
      (m.serve now (.get k)).2.Lasting t := by
  have hvalue := h.value now k
  cases hpresent : m.present? now k with
  | none =>
    rw [hpresent] at hvalue
    rw [serve_get_absent hpresent, ← hvalue]
    exact ⟨rfl, h.timeToLive, h.timeToIdle, h.entries⟩
  | some e =>
    obtain ⟨value, stamps⟩ := e
    have hstored := hpresent
    rw [h.present?_eq] at hstored
    rw [hpresent] at hvalue
    rw [serve_get_present hpresent, ← hvalue, h.timeToIdle]
    refine ⟨rfl, h.timeToLive, rfl, fun k' => ?_⟩
    show ((m.entries.insert k (value, stamps)).get? k').map _ = _
    rw [Table.get?_insert]
    split
    · rename_i hk
      rw [hk, ← hstored]
      exact h.entries k
    · exact h.entries k'

theorem keys_perm (h : m.Lasting t) (now : Nat) : (m.keys now).Perm t.keys := by
  refine (Table.keys_perm (m.nodup_keys now) fun k => ?_).symm
  rw [m.mem_keys, h.isSome]

theorem serve (h : m.Lasting t) (now : Nat) (r : MapRequest K (Shared V)) :
    ∃ t', (m.serve now r).2.Lasting t' := by
  cases r with
  | insert k value => exact ⟨_, h.insert now k value⟩
  | remove k => exact ⟨_, (h.remove now k).2⟩
  | get k => exact ⟨t, (h.get now k).2⟩
  | _ => exact ⟨t, h⟩

end Lasting

end Expiring

/-! ## Within its capacity a map pushes nothing out -/

namespace Lru

def Holds (l : Lru K V) (t : Table K V) : Prop := ∀ k, l.find? k = t.get? k

variable {l : Lru K V} {t : Table K V}

theorem Holds.keys_perm (h : l.Holds t) (hnodup : l.keys.Nodup) : l.keys.Perm t.keys := by
  refine (Table.keys_perm hnodup fun k => ?_).symm
  rw [Table.contains_eq, ← h k, isSome_find?, decide_eq_true_iff]

theorem Holds.toFront (h : l.Holds t) (k : K) (v : V) : (l.toFront k v).Holds (t.insert k v) := by
  intro k'
  rw [find?_toFront, Table.get?_insert, h k']

theorem Holds.without (h : l.Holds t) (k : K) : (l.without k).Holds (t.erase k) := by
  intro k'
  rw [find?_without, Table.get?_erase, h k']

theorem nodup_keys_toFront (h : l.keys.Nodup) (k : K) (v : V) : (l.toFront k v).keys.Nodup := by
  rw [keys_toFront, List.nodup_cons, List.mem_filter]
  exact ⟨by simp, h.filter _⟩

theorem Holds.insert (h : l.Holds t) (hnodup : l.keys.Nodup) (k : K) (v : V)
    (hroom : (t.insert k v).size ≤ l.capacity) :
    (l.serve (.insert k v)).map.Holds (t.insert k v) := by
  have hfront := h.toFront k v
  have hlength := (hfront.keys_perm (nodup_keys_toFront hnodup k v)).length_eq
  rw [Table.length_keys] at hlength
  show (l.toFront k v).settle.1.Holds _
  have hcapacity : (l.toFront k v).keys.length ≤ (l.toFront k v).capacity := hlength ▸ hroom
  rw [settle_of_length_le hcapacity]
  exact hfront

theorem Holds.get (h : l.Holds t) (k : K) :
    (l.serve (.get k)).reply = .value (t.get? k) ∧ (l.serve (.get k)).map.Holds t := by
  rw [← h k]
  cases hfind : l.find? k with
  | none =>
    simp only [serve, hfind]
    exact ⟨trivial, h⟩
  | some v =>
    simp only [serve, hfind]
    exact ⟨trivial, fun k' => (find?_toFront_of_find? hfind k').trans (h k')⟩

end Lru

/-! ## Caches -/

/-- What a cache keeps for good: which values, and how many at a time if there is a limit. -/
structure Room (V : Type v) where
  admits : V → Prop
  limit : Option Nat

namespace Room

def endless : Room V := ⟨fun _ => True, none⟩

def tiers (n m : Nat) (codec : Codec V) : Room V := ⟨codec.RoundTrips, some (n + m)⟩

/-- There is room for so many values at a time. -/
def Fits (room : Room V) (count : Nat) : Prop := ∀ limit, room.limit = some limit → count ≤ limit

end Room

namespace Backend

/-- The cache has the values of the table. -/
inductive Keeps : Room V → Backend K V → World → Table K V → Prop
  | volatile {c : Volatile K V} {w : World} {t : Table K V} {m : Expiring K V}
    (resembles : c.Resembles w.now m) (lasting : m.Lasting t) : Keeps .endless (.volatile c) w t
  | overflow {c : Overflow K V} {w : World} {t : Table K V} {l : Lru K V} {n m : Nat}
    {codec : Codec V} (mirrors : Overflow.Mirrors true n m c w.area l) (holds : l.Holds t)
    (written : c.settings.codec = codec) : Keeps (.tiers n m codec) (.overflow c) w t

namespace Keeps

variable {room : Room V} {c : Backend K V} {w : World} {t : Table K V}

theorem elsewhere (h : Keeps room c w t) {w' : World} (hnow : w.now ≤ w'.now)
    (harea : w'.area = w.area) : Keeps room c w' t := by
  cases h with
  | volatile resembles lasting =>
    have hlater := resembles.wait (w'.now - w.now)
    rw [Nat.add_sub_cancel' hnow] at hlater
    exact .volatile hlater lasting
  | overflow mirrors holds written =>
    rw [← harea] at mirrors
    exact .overflow mirrors holds written

theorem insert (h : Keeps room c w t) (k : K) (value : Shared V) (hvalue : room.admits value.value)
    (hroom : room.Fits (t.insert k value.value).size) :
    Keeps room (c.insert w k value).state (c.insert w k value).world (t.insert k value.value) := by
  cases h with
  | volatile resembles lasting =>
    exact .volatile (resembles.insert k value) (lasting.insert w.now k value)
  | @overflow c w t l n m codec mirrors holds written =>
    subst written
    have hinserted := mirrors.insert k value fun _ => hvalue
    have hcapacity : (t.insert k value.value).size ≤ l.capacity :=
      mirrors.capacity ▸ hroom (n + m) rfl
    have hnodup := mirrors.matched.nodup mirrors.sound.toTidy
    exact .overflow hinserted.mirrors (holds.insert hnodup k value.value hcapacity)
      (congrArg OverflowSettings.codec (mirrors.sound.sameSetup_insert w k value).settings)

theorem remove (h : Keeps room c w t) (k : K) :
    (c.remove w k).answer = t.contains k ∧
      Keeps room (c.remove w k).state (c.remove w k).world (t.erase k) := by
  cases h with
  | volatile resembles lasting =>
    obtain ⟨hanswer, hafter⟩ := resembles.remove k
    obtain ⟨hreply, hlasting⟩ := lasting.remove w.now k
    exact ⟨MapReply.truth.inj (hanswer.trans hreply), .volatile hafter hlasting⟩
  | overflow mirrors holds written =>
    have hremoved := mirrors.remove k
    refine ⟨?_, .overflow hremoved.mirrors (holds.without k) ?_⟩
    · exact (mirrors.remove_reply k).1.trans (congrArg Option.isSome (holds k))
    · rw [← written]
      exact congrArg OverflowSettings.codec (mirrors.sound.sameSetup_remove _ k).settings

theorem get (h : Keeps room c w t) (k : K) :
    (c.get w k).answer.map Shared.value = t.get? k ∧
      Keeps room (c.get w k).state (c.get w k).world t := by
  cases h with
  | volatile resembles lasting =>
    obtain ⟨hanswer, hafter⟩ := resembles.get k
    obtain ⟨hreply, hlasting⟩ := lasting.get w.now k
    rw [← hanswer] at hreply
    exact ⟨MapReply.value.inj hreply, .volatile hafter hlasting⟩
  | overflow mirrors holds written =>
    have hfound := mirrors.get k
    refine ⟨(mirrors.get_answer k).trans (holds k), .overflow hfound.mirrors (holds.get k).2 ?_⟩
    rw [← written]
    exact congrArg OverflowSettings.codec (mirrors.sound.sameSetup_get _ k).settings

theorem contains_eq (h : Keeps room c w t) (k : K) : c.contains w k = t.contains k := by
  cases h with
  | volatile resembles lasting =>
    have hpresent := congrArg Option.isSome (resembles.present? k)
    exact (Volatile.contains_eq_isSome _ _ k).trans (hpresent.trans (lasting.isSome w.now k))
  | overflow mirrors holds written =>
    exact (mirrors.contains k).trans (congrArg Option.isSome (holds k))

theorem keys (h : Keeps room c w t) :
    (c.keys w).answer.Perm t.keys ∧ Keeps room (c.keys w).state (c.keys w).world t := by
  cases h with
  | volatile resembles lasting =>
    exact ⟨resembles.keys_perm.trans (lasting.keys_perm w.now), .volatile resembles lasting⟩
  | @overflow c w t l n m codec mirrors holds written =>
    have hlisted : (Backend.overflow c).keys w = .pure c.keyIndex.keys (.overflow c) w := by
      unfold Backend.keys Overflow.keys
      dsimp only
      rw [mirrors.purgeExpired]
      rfl
    have hperm := holds.keys_perm (mirrors.matched.nodup mirrors.sound.toTidy)
    rw [hlisted]
    exact ⟨mirrors.keys_perm.trans hperm, .overflow mirrors holds written⟩

theorem size (h : Keeps room c w t) :
    (c.size w).answer = t.size ∧ Keeps room (c.size w).state (c.size w).world t := by
  cases h with
  | volatile resembles lasting =>
    have hperm := resembles.keys_perm.trans (lasting.keys_perm w.now)
    exact ⟨hperm.length_eq.trans t.length_keys, .volatile resembles lasting⟩
  | @overflow c w t l n m codec mirrors holds written =>
    have hcounted : (Backend.overflow c).size w = .pure c.keyIndex.size (.overflow c) w := by
      unfold Backend.size Overflow.size
      dsimp only
      rw [mirrors.purgeExpired]
      rfl
    have hperm := holds.keys_perm (mirrors.matched.nodup mirrors.sound.toTidy)
    have hlength := (mirrors.keys_perm.trans hperm).length_eq
    rw [Table.length_keys, Table.length_keys] at hlength
    rw [hcounted]
    exact ⟨hlength, .overflow mirrors holds written⟩

end Keeps

variable {room : Room V} {c : Backend K V} {w : World} {t : Table K V}

/-- A request that stores what is kept leaves a cache that loses nothing, with other values: where there
was no room, older ones are gone. -/
theorem Keeps.perform (h : Keeps room c w t) (r : MapRequest K (Shared V))
    (hvalue : ∀ k value, r = .insert k value → room.admits value.value) :
    ∃ t', Keeps room (c.perform w (.request r)).state (c.perform w (.request r)).world t' := by
  cases h with
  | @volatile c w t m resembles lasting =>
    have hserved := (resembles.serve r).2
    obtain ⟨t', hlasting⟩ := lasting.serve w.now r
    have hstate : ((Backend.volatile c).perform w (.request r)).state =
        .volatile (c.serve w.now r).2 := by cases r <;> rfl
    have hworld : ((Backend.volatile c).perform w (.request r)).world = w := by cases r <;> rfl
    rw [hstate, hworld]
    exact ⟨t', .volatile hserved hlasting⟩
  | @overflow c w t l n m codec mirrors holds written =>
    subst written
    have hserved := (mirrors.serve r fun k value heq _ => hvalue k value heq).mirrors
    have hsame := (mirrors.sound.sameSetup_perform w (.request r)).settings
    have hnodup := hserved.matched.nodup hserved.sound.toTidy
    have hstate : ((Backend.overflow c).perform w (.request r)).state =
        .overflow (c.serve w r).state := by cases r <;> rfl
    have hworld : ((Backend.overflow c).perform w (.request r)).world = (c.serve w r).world := by
      cases r <;> rfl
    rw [hstate, hworld]
    exact ⟨⟨_, hnodup⟩, .overflow hserved (fun _ => rfl) (congrArg OverflowSettings.codec hsame)⟩

/-- Takes a cache through requests, each so many nanoseconds after the one before. -/
def use (c : Backend K V) (w : World) :
    List (Nat × MapRequest K (Shared V)) → Step (Backend K V) (Eviction K V) Unit
  | [] => .pure () c w
  | (wait, r) :: rs => (c.perform (w.advance wait) (.request r)).bind fun _ c w => c.use w rs

theorem Keeps.use (h : Keeps room c w t) (rs : List (Nat × MapRequest K (Shared V)))
    (hvalues : ∀ wait k value, (wait, .insert k value) ∈ rs → room.admits value.value) :
    ∃ t', Keeps room (c.use w rs).state (c.use w rs).world t' := by
  induction rs generalizing c w t with
  | nil => exact ⟨t, h⟩
  | cons r rs ih =>
    obtain ⟨wait, r⟩ := r
    have hlater : Keeps room c (w.advance wait) t := h.elsewhere (Nat.le_add_right _ _) rfl
    obtain ⟨t', hperformed⟩ := hlater.perform r fun k value heq =>
      hvalues wait k value (heq ▸ List.mem_cons_self)
    exact ih hperformed fun wait k value hmem => hvalues wait k value (List.mem_cons_of_mem _ hmem)

theorem keeps_of_volatile {b : Builder} {st : Storage K V} {w : World} {c : Volatile K V}
    (h : b.buildVolatile st w = .ok c) (hlive : b.config.timeToLive = none)
    (hidle : b.config.timeToIdle = none) : Keeps .endless (.volatile c) w .empty := by
  have hresembles := Volatile.resembles_make (V := V) b.name (Volatile.nextPowerOfTwo_pos b.shards)
    st.hash b.config.timeToLive b.config.timeToIdle
    (.seeded (UInt64.ofNat (nextPowerOfTwo b.shards))) w.now
  rw [hlive, hidle] at hresembles
  rw [Volatile.eq_make_of_built h, hlive, hidle]
  exact .volatile hresembles .empty

theorem keeps_of_tiers {b : Builder} {st : Storage K V} {w w' : World} {c : Overflow K V}
    (h : b.buildOverflow st w = (.ok c, w')) (hlive : b.config.timeToLive = none)
    (hidle : b.config.timeToIdle = none) (hpersistence : b.config.persistence = .swapOnOverflow)
    {n m : Nat} (hmemory : b.config.memoryBound = .entries n) (hdisk : b.config.diskBound = .entries m)
    (hwritable : ∀ number name, w.area.unwritable number name = false) :
    Keeps (.tiers n m st.codec) (.overflow c) w' .empty := by
  have hbuilt := Builder.built h
  have hmirrors : Overflow.Mirrors true n m c w'.area (Lru.empty (n + m)) :=
    hbuilt.mirrors hlive hidle hmemory nofun fun _ => ⟨hpersistence, hdisk, hwritable⟩
  have hsettings := congrArg OverflowSettings.codec hbuilt.setup.1
  exact .overflow hmirrors (fun _ => rfl) hsettings

end Backend

end CacheLayer
