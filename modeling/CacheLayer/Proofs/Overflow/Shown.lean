import CacheLayer.Proofs.Events
import CacheLayer.Proofs.Overflow.Copy
import CacheLayer.Proofs.Overflow.Run

/-!
# The values that a two-tier cache shows

An event shows a value only where the entry leaves memory, and that entry is one that could be read
before the operation or the one that the operation stores. So if what can be read under each key was
stored there last, what the events show was too.

* `Sheds.shown`, `Sound.shown_insert`, `Sound.shown_get`, `Sound.shown_remove` : where the value of an
  event comes from.
* `Recalls` : what can be read was stored last; `Recalls.perform` : every operation keeps that.
* `Recalls.shown` : what the events show was stored last.
-/

namespace CacheLayer.Overflow

variable {K : Type u} {V : Type v} [DecidableEq K] {c : Overflow K V} {w : World} {k : K}
  {event : Eviction K V} {x : Shared V}

/-! ## Where values come from -/

/-- An entry that is shed is shown only as it lies in memory. -/
theorem Shed.shown {s : Step (Overflow K V) (Eviction K V) Unit} (hs : Shed c w s) (hc : c.Sound)
    (hevent : event ∈ s.log) (hx : event.value = some x) :
    ∃ e, c.entries.get? event.key = some e ∧ e.value = x := by
  have hone {k : K} {e : Entry V} {reason : EvictionReason} (hget : c.entries.get? k = some e)
      (heq : event = ⟨k, some e.value, reason⟩) : ∃ e, c.entries.get? event.key = some e ∧ e.value = x := by
    subst heq
    exact ⟨e, hget, Option.some.inj hx⟩
  cases hs with
  | @evict k weight rest e hpop hget =>
    have hspilled := (hc.toTidy.dropMemory k).spilled w k e
    generalize (c.dropMemory k).spill w k e = s at hspilled hevent
    cases hspilled with
    | written hlive t hdisk bytes hencode haccepts =>
      obtain ⟨victim, -, rfl⟩ := List.mem_map.1 hevent
      cases hx
    | _ => exact hone hget (List.mem_singleton.1 hevent)
  | expireMemory hget hx' =>
    rw [Overflow.expireMemory, hget] at hevent
    exact hone hget (List.mem_singleton.1 hevent)
  | expireDisk hdisk hx' =>
    rw [List.mem_singleton.1 hevent] at hx
    cases hx

theorem Sheds.shown {s : Step (Overflow K V) (Eviction K V) Unit} (hs : Sheds c w s) (hc : c.Sound)
    (hcodec : c.settings.codec.Truthful) (hevent : event ∈ s.log) (hx : event.value = some x) :
    ∃ stamps, Copy c w.area event.key stamps x.value := by
  induction hs with
  | refl c w => cases hevent
  | @step c w s s' hs hs' ih =>
    rcases List.mem_append.1 hevent with hfirst | hlater
    · obtain ⟨e, hget, rfl⟩ := hs.shown hc hfirst hx
      exact ⟨e.stamps, .inMemory hget⟩
    · have hsame := (hs.sink.sameSetup hc).settings
      obtain ⟨stamps, hcopy⟩ := ih (hs.sink.sound hc) (by rwa [hsame]) hlater
      exact ⟨stamps, hcopy.of_sink hs.sink hc hcodec⟩

theorem Sound.shown_insert {value : Shared V} (hc : c.Sound) (hcodec : c.settings.codec.Truthful)
    (hevent : event ∈ (c.insert w k value).log) (hx : event.value = some x) :
    (event.key = k ∧ x.value = value.value) ∨
      (event.key ≠ k ∧ ∃ stamps, Copy c w.area event.key stamps x.value) := by
  have hfront := (hc.dropBoth k).atFront (c.freshEntry w value)
  rw [hc.insert_eq] at hevent
  obtain ⟨stamps, hcopy⟩ :=
    (takeIn_sheds hfront (c.clearedWorld w k)).shown hfront hcodec hevent hx
  rcases hcopy.of_atFront (hc.dropBoth k).notOnDisk with ⟨hk, -, hv⟩ | ⟨-, hother⟩
  · exact .inl ⟨hk, hv⟩
  · obtain ⟨hk, hbefore⟩ := hother.of_cleared hc
    exact .inr ⟨hk, stamps, hbefore⟩

theorem Sound.shown_get (hc : c.Sound) (hcodec : c.settings.codec.Truthful)
    (hevent : event ∈ (c.get w k).log) (hx : event.value = some x) :
    ∃ stamps, Copy c w.area event.key stamps x.value := by
  have hfound := find_found c w k
  have hevent : event ∈ (c.find w k).log := hevent
  generalize c.find w k = s at hfound hevent
  cases hfound with
  | absent hmemory hdisk => cases hevent
  | gone hs =>
    cases hs with
    | expiredInMemory hget hx' =>
      obtain ⟨e, hget, rfl⟩ := (Shed.expireMemory hget hx').shown hc hevent hx
      exact ⟨e.stamps, .inMemory hget⟩
    | expiredOnDisk hmemory hdisk hx' =>
      rw [List.mem_singleton.1 hevent] at hx
      cases hx
    | lost hmemory hdisk hlive htake hunread => cases hevent
  | hit hget hlive => cases hevent
  | @promoted t bytes stamps v hmemory hdisk hstamps hlive hcontent hread =>
    have hvacant := lifted_vacant hc hmemory hdisk
    obtain ⟨stamps', hcopy⟩ :=
      (takeIn_sheds (hvacant.atFront _) _).shown (hvacant.atFront _) hcodec hevent hx
    rcases hcopy.of_atFront hvacant.notOnDisk with ⟨hk, -, hv⟩ | ⟨-, hother⟩
    · rw [hk, hv]
      exact ⟨stamps, .onDisk hdisk hstamps hcontent hread⟩
    · exact ⟨stamps', hother.of_lifted hc hdisk⟩

theorem Sound.shown_remove (hc : c.Sound) (hevent : event ∈ (c.remove w k).log)
    (hx : event.value = some x) : ∃ stamps, Copy c w.area event.key stamps x.value := by
  have hremoved := hc.removed w k
  generalize c.remove w k = s at hremoved hevent
  have hone {e : Entry V} {reason : EvictionReason} (hget : c.entries.get? k = some e)
      (heq : event = ⟨k, some e.value, reason⟩) :
      ∃ stamps, Copy c w.area event.key stamps x.value := by
    subst heq
    rw [← Option.some.inj hx]
    exact ⟨e.stamps, .inMemory hget⟩
  cases hremoved with
  | absent hmemory hdisk => cases hevent
  | expired hget hx' => exact hone hget (List.mem_singleton.1 hevent)
  | fromMemory hget hlive => exact hone hget (List.mem_singleton.1 hevent)
  | fromDisk hmemory hdisk hcontains =>
    rw [List.mem_singleton.1 hevent] at hx
    cases hx

/-! ## What was stored last -/

/-- What was stored last under each key, after an operation. -/
def Op.storing (stored : K → Option (Shared V)) : Op K V → K → Option (Shared V)
  | .request r => r.storing stored
  | _ => stored

/-- What can be read under a key was stored there last. -/
def Recalls (c : Overflow K V) (area : FileArea) (stored : K → Option (Shared V)) : Prop :=
  ∀ k stamps v, Copy c area k stamps v → ∃ y, stored k = some y ∧ y.value = v

variable {stored : K → Option (Shared V)}

theorem Recalls.update (h : Recalls c w.area stored) {value : Shared V} {k' : K} {v : V}
    (hv : (k' = k ∧ v = value.value) ∨ (k' ≠ k ∧ ∃ stamps, Copy c w.area k' stamps v)) :
    ∃ y, Function.update stored k (some value) k' = some y ∧ y.value = v := by
  rcases hv with ⟨rfl, rfl⟩ | ⟨hk, stamps, hcopy⟩
  · exact ⟨value, Function.update_self .., rfl⟩
  · obtain ⟨y, hy, hv⟩ := h k' stamps v hcopy
    exact ⟨y, (Function.update_of_ne hk ..).trans hy, hv⟩

theorem Recalls.perform (h : Recalls c w.area stored) (hc : c.Sound)
    (hcodec : c.settings.codec.Truthful) (op : Op K V)
    (hop : ∀ change, op = .outside change → c.settings.codec.Unforged w.area (change w.area)) :
    Recalls (c.perform w op).state (c.perform w op).world.area (op.storing stored) := by
  have hpurged : Recalls (c.purgeExpired w).state (c.purgeExpired w).world.area stored :=
    fun k stamps v hcopy => h k stamps v (hcopy.of_sinks (purgeExpired_sinks hc w) hc hcodec)
  cases op with
  | request r =>
    cases r with
    | insert k value =>
      intro k' stamps v hcopy
      rcases hcopy.of_insert hc hcodec with ⟨hk, -, hv⟩ | ⟨hk, hbefore⟩
      · exact h.update (.inl ⟨hk, hv⟩)
      · exact h.update (.inr ⟨hk, stamps, hbefore⟩)
    | remove k => exact fun k' stamps v hcopy => h k' stamps v (hcopy.of_remove hc).2
    | get k =>
      intro k' stamps v hcopy
      have hfound : Copy (c.find w k).state (c.find w k).world.area k' stamps v :=
        hcopy.mono rfl (fun _ he => he) fun t ht => ⟨t, ht, .refl _ _ _⟩
      obtain ⟨before, hbefore, -⟩ := hfound.of_found (find_found c w k) hc hcodec
      exact h k' before v hbefore
    | contains k => exact h
    | keys => exact hpurged
    | size => exact hpurged
  | purgeExpired => exact hpurged
  | close => exact fun _ _ _ hcopy => (not_copy_close c w hcopy).elim
  | outside change =>
    exact fun k stamps v hcopy => h k stamps v (hcopy.of_unforged (hop change rfl))

theorem Recalls.shown (h : Recalls c w.area stored) (hc : c.Sound)
    (hcodec : c.settings.codec.Truthful) {op : Op K V} (hevent : event ∈ (c.perform w op).log)
    (hx : event.value = some x) :
    ∃ y, op.storing stored event.key = some y ∧ y.value = x.value := by
  have hpurged (hevent : event ∈ (c.purgeExpired w).log) :
      ∃ y, stored event.key = some y ∧ y.value = x.value := by
    obtain ⟨stamps, hcopy⟩ := (purgeExpired_sheds hc w).shown hc hcodec hevent hx
    exact h _ stamps _ hcopy
  cases op with
  | request r =>
    cases r with
    | insert k value => exact h.update (hc.shown_insert hcodec hevent hx)
    | remove k =>
      obtain ⟨stamps, hcopy⟩ := hc.shown_remove hevent hx
      exact h _ stamps _ hcopy
    | get k =>
      obtain ⟨stamps, hcopy⟩ := hc.shown_get hcodec hevent hx
      exact h _ stamps _ hcopy
    | contains k => cases hevent
    | keys => exact hpurged hevent
    | size => exact hpurged hevent
  | purgeExpired => exact hpurged hevent
  | close =>
    unfold Overflow.perform close at hevent
    cases hdisk : c.disk <;> simp [hdisk, Step.mapAnswer, Step.pure] at hevent
  | outside change => cases hevent

end CacheLayer.Overflow
