import CacheLayer.Proofs.Overflow.Removal
import Mathlib.Logic.Relation

/-!
# Files that can be read

Without damage from outside every entry on disk can be read. What a cache stores has to last for that:
a value that comes back from disk is another one where a codec loses something, and it may go to disk
again.

* `Codec.Lasting` : what becomes of a value on its ways to disk and back can be read each time.
* `Intact` : every entry on disk can be read; kept by every operation.
* `Intact.isSome_peek` : so a look-up finds what its stamps let it find.
-/

namespace CacheLayer

variable {K : Type u} {V : Type v}

namespace Codec

/-- One value becomes the other when it is written and read back. -/
def Becomes (codec : Codec V) (v u : V) : Prop :=
  ∃ bytes, codec.encode v = .ok bytes ∧ codec.read bytes = .ok u

/-- However often a value is written and read back, what was written can be read. -/
def Lasting (codec : Codec V) (v : V) : Prop :=
  ∀ u, Relation.ReflTransGen codec.Becomes v u →
    ∀ bytes, codec.encode u = .ok bytes → ∃ u', codec.read bytes = .ok u'

theorem Lasting.read {codec : Codec V} {v : V} (h : codec.Lasting v) {bytes : List UInt8}
    (hencode : codec.encode v = .ok bytes) : ∃ u, codec.read bytes = .ok u ∧ codec.Lasting u := by
  obtain ⟨u, hread⟩ := h v .refl bytes hencode
  exact ⟨u, hread, fun u' hlater => h u' (.head ⟨bytes, hencode, hread⟩ hlater)⟩

theorem Faithful.lasting {codec : Codec V} (h : codec.Faithful) (v : V) : codec.Lasting v :=
  fun u _ bytes hencode => ⟨u, h u bytes hencode⟩

end Codec

variable [DecidableEq K] {own : Option TierPlace}

namespace DiskTier

variable {codec : Codec V} {t t' : DiskTier K} {area area' : FileArea}

/-- Every entry has a file with a value that lasts, and the tier is in its own place or closed. -/
structure Intact (own : Option TierPlace) (codec : Codec V) (area : FileArea) (t : DiskTier K) :
    Prop where
  readable : ∀ k stamps, t.stamps? k = some stamps →
    ∃ bytes v, t.content? area k = some bytes ∧ codec.read bytes = .ok v ∧ codec.Lasting v
  place : ∀ place, t.place = some place → own = some place

theorem Intact.without (h : t.Intact own codec area) {k : K} (hplace : t'.place = t.place)
    (hstamps : ∀ k', t'.stamps? k' = (t.without k).stamps? k')
    (hcontent : ∀ k', t'.content? area' k' = if k' = k then none else t.content? area k') :
    t'.Intact own codec area' where
  readable k' stamps hk' := by
    rw [hstamps, stamps?_without] at hk'
    rw [hcontent]
    split at hk'
    · cases hk'
    · rename_i hk
      rw [if_neg hk]
      exact h.readable k' stamps hk'
  place := by
    rw [hplace]
    exact h.place

theorem Intact.write (h : t.Intact own codec area) (ht : t.Sound)
    (haccepts : t.accepts area = true) (k : K) {bytes : List UInt8} (stamps : Timestamps)
    (hread : ∃ v, codec.read bytes = .ok v ∧ codec.Lasting v) :
    (t.withWritten k bytes.length stamps).Intact own codec (t.write area k bytes stamps).area where
  readable k' stamps' hk' := by
    have hcontent := ht.content?_write k bytes stamps haccepts k'
    rw [ht.write_tier haccepts] at hcontent
    rw [stamps?_withWritten] at hk'
    rw [hcontent]
    split at hk'
    · cases hk'
    · rename_i hkept
      rw [if_neg hkept]
      split at hk'
      · rename_i hk
        obtain ⟨v, hv, hlasting⟩ := hread
        exact ⟨bytes, v, if_pos hk, hv, hlasting⟩
      · rename_i hk
        rw [if_neg hk]
        exact h.readable k' stamps' hk'
  place := h.place

theorem Intact.outside (h : t.Intact own codec area) {change : FileArea → FileArea}
    (hspares : ∀ place, own = some place → FileArea.Spares place.number change) :
    t.Intact own codec (change area) where
  readable k stamps hstamps := by
    obtain ⟨bytes, v, hcontent, hread⟩ := h.readable k stamps hstamps
    refine ⟨bytes, v, ?_, hread⟩
    obtain ⟨slot, hslot, hfile⟩ := Option.bind_eq_some_iff.1 hcontent
    obtain ⟨place, hplace, hfile⟩ := Option.bind_eq_some_iff.1 hfile
    have hkept := hspares place (h.place place hplace) area _ bytes hfile
    rw [content?, hslot, Option.bind_some, hplace, Option.bind_some, hkept]
  place := h.place

end DiskTier

namespace Overflow

variable {c c' : Overflow K V} {w : World} {area area' : FileArea}

structure Intact (own : Option TierPlace) (c : Overflow K V) (area : FileArea) : Prop where
  memory : ∀ k e, c.entries.get? k = some e → c.settings.codec.Lasting e.value.value
  disk : ∀ t, c.disk = some t → t.Intact own c.settings.codec area

theorem Intact.mono (h : Intact own c area) (hcodec : c'.settings.codec = c.settings.codec)
    (hmemory : ∀ k e, c'.entries.get? k = some e → c.entries.get? k = some e)
    (hdisk : ∀ t, c'.disk = some t → t.Intact own c.settings.codec area') :
    Intact own c' area' := by
  constructor
  · rw [hcodec]
    exact fun k e hget => h.memory k e (hmemory k e hget)
  · rw [hcodec]
    exact hdisk

theorem Intact.of_tiers (h : Intact own c area) (hcodec : c'.settings.codec = c.settings.codec)
    (hentries : c'.entries = c.entries) (hdisk : c'.disk = c.disk) : Intact own c' area :=
  h.mono hcodec (fun _ _ hget => hentries ▸ hget) fun t ht => h.disk t (hdisk ▸ ht)

theorem Intact.dropMemory (h : Intact own c area) (k : K) : Intact own (c.dropMemory k) area :=
  h.mono rfl (fun _ _ hget => get?_of_get?_erase hget) h.disk

theorem Intact.atFront (h : Intact own c area) (k : K) {e : Entry V}
    (he : c.settings.codec.Lasting e.value.value) : Intact own (c.atFront k e) area where
  memory k' e' hget := by
    have hget : (c.entries.insert k e).get? k' = some e' := hget
    rw [Table.get?_insert] at hget
    split at hget
    · rw [← Option.some.inj hget]
      exact he
    · exact h.memory k' e' hget
  disk := h.disk

/-! ## Sinking -/

theorem Intact.spilled (h : Intact own c w.area) (hc : c.Tidy) {k : K} {e : Entry V}
    {s : Step (Overflow K V) (Eviction K V) Unit} (he : c.settings.codec.Lasting e.value.value)
    (hs : Spilled c w k e s) : Intact own s.state s.world.area := by
  cases hs with
  | expired x hx => exact h.of_tiers rfl rfl rfl
  | dropped hlive hdisk => exact h.of_tiers rfl rfl rfl
  | unencodable hlive t hdisk fault hencode => exact h.of_tiers rfl rfl rfl
  | refused hlive t hdisk bytes hencode haccepts =>
    refine h.mono rfl (fun _ _ hget => hget) fun t' ht' => ?_
    have hcontent := (hc.disk t hdisk).content?_write_failed k bytes e.stamps haccepts
    rw [(hc.disk t hdisk).write_tier_failed haccepts] at hcontent
    rw [← Option.some.inj ht']
    exact (h.disk t hdisk).without rfl (fun _ => rfl) hcontent
  | written hlive t hdisk bytes hencode haccepts =>
    refine h.mono rfl (fun _ _ hget => hget) fun t' ht' => ?_
    rw [← Option.some.inj ht']
    exact (h.disk t hdisk).write (hc.disk t hdisk) haccepts k e.stamps (he.read hencode)

theorem Intact.sink (h : Intact own c w.area) (hc : c.Sound)
    {s : Step (Overflow K V) (Eviction K V) Unit} (hs : Sink c w s) :
    Intact own s.state s.world.area := by
  cases hs with
  | @evict k weight rest e hpop hget =>
    have htidy := hc.toTidy.dropMemory k
    exact (h.dropMemory k).spilled htidy (h.memory k e hget) (htidy.spilled w k e)
  | @expireMemory k e x hget hx =>
    rw [Overflow.expireMemory, hget]
    exact (h.dropMemory k).of_tiers rfl rfl rfl
  | @expireDisk t k x hdisk hx =>
    have ht := hc.disk t hdisk
    refine h.mono rfl (fun _ _ hget => hget) fun t' ht' => ?_
    have ht' : (t.remove w.area k).tier = t' := Option.some.inj ht'
    rw [← ht', ht.remove_tier]
    exact (h.disk t hdisk).without rfl (fun _ => rfl) (ht.content?_remove w.area k)
  | @lose t k taken hdisk hlive htake hlost =>
    refine h.mono rfl (fun _ _ hget => hget) fun t' ht' => ?_
    have hcontent := (hc.disk t hdisk).content?_take htake
    rw [← Option.some.inj ht']
    rw [DiskTier.take_tier htake] at hcontent ⊢
    exact (h.disk t hdisk).without rfl (fun _ => rfl) hcontent

theorem Intact.sinks (h : Intact own c w.area) (hc : c.Sound)
    {s : Step (Overflow K V) (Eviction K V) Unit} (hs : Sinks c w s) :
    Intact own s.state s.world.area :=
  hs.keepOfSound (P := fun c w => Intact own c w.area) (fun _ _ _ hs hc h => h.sink hc hs) hc h

/-! ## The operations -/

theorem Intact.cleared (h : Intact own c w.area) (hc : c.Sound) (k : K) :
    Intact own ((c.dropMemory k).dropDisk k) (c.clearedWorld w k).area := by
  refine h.mono rfl (fun _ _ hget => get?_of_get?_erase hget) fun t' ht' => ?_
  obtain ⟨t, hdisk, rfl⟩ := Option.map_eq_some_iff.1 ht'
  have hdisk : c.disk = some t := hdisk
  rw [clearedWorld_of_disk hdisk]
  exact (h.disk t hdisk).without rfl (fun _ => rfl) ((hc.disk t hdisk).content?_remove w.area k)

theorem Intact.insert (h : Intact own c w.area) (hc : c.Sound) (k : K) {value : Shared V}
    (hvalue : c.settings.codec.Lasting value.value) :
    Intact own (c.insert w k value).state (c.insert w k value).world.area := by
  have hfront := (hc.dropBoth k).atFront (c.freshEntry w value)
  have hstored := (h.cleared hc k).atFront k (e := c.freshEntry w value) hvalue
  have htaken := hstored.sinks hfront (takeIn_sinks hfront (c.clearedWorld w k))
  rw [hc.insert_eq]
  exact htaken.of_tiers rfl rfl rfl

theorem Intact.found (h : Intact own c w.area) (hc : c.Sound) {k : K}
    {s : Step (Overflow K V) (Eviction K V) (Option (Shared V))} (hs : Found c w k s) :
    Intact own s.state s.world.area := by
  cases hs with
  | absent hmemory hdisk => exact h
  | gone hs => exact h.sink hc hs.sink
  | @hit e hget hlive =>
    have hused := h.atFront k (e := { e with stamps := c.touched w e.stamps }) (h.memory k e hget)
    exact hused.of_tiers rfl rfl rfl
  | @promoted t bytes stamps v hmemory hdisk hstamps hlive hcontent hread =>
    obtain ⟨bytes', v', hcontent', hread', hlasting⟩ := (h.disk t hdisk).readable k stamps hstamps
    -- what lies in the file is what was found there
    rw [hcontent] at hcontent'
    rw [← Option.some.inj hcontent', hread] at hread'
    rw [← Except.ok.inj hread'] at hlasting
    have hfront := (lifted_vacant hc hmemory hdisk).atFront
    have hlifted : Intact own (c.lifted t k) (t.deleteSlot w.area k).2 := by
      refine h.mono rfl (fun _ _ hget => hget) fun t' ht' => ?_
      have hdelete := DiskTier.content?_deleteSlot (hc.disk t hdisk).distinct w.area k
      rw [DiskTier.deleteSlot_tier] at hdelete
      rw [← Option.some.inj ht']
      exact (h.disk t hdisk).without rfl (fun _ => rfl) hdelete
    have hstored := hlifted.atFront k
      (e := ⟨⟨w.nextId, v⟩, c.weigh v, c.touched w stamps⟩) hlasting
    exact hstored.sinks (hfront _)
      (takeIn_sinks (hfront _) (World.share { w with area := (t.deleteSlot w.area k).2 } v).2)

theorem Intact.remove (h : Intact own c w.area) (hc : c.Sound) (k : K) :
    Intact own (c.remove w k).state (c.remove w k).world.area := by
  have hcleared := h.cleared hc k
  rw [hc.remove_state, hc.remove_world]
  exact hcleared.of_tiers rfl rfl rfl

theorem intact_close (c : Overflow K V) (w : World) (area : FileArea) :
    Intact own (c.close w).state area := by
  rw [close_state]
  refine ⟨nofun, fun t ht => ?_⟩
  obtain ⟨t₀, -, rfl⟩ := Option.map_eq_some_iff.1 ht
  exact ⟨nofun, nofun⟩

/-! ## Runs -/

/-- What is stored lasts, and others leave the directory of the cache alone. -/
def Op.Harmless (codec : Codec V) (own : Option TierPlace) : Op K V → Prop
  | .request (.insert _ value) => codec.Lasting value.value
  | .outside change => ∀ place, own = some place → FileArea.Spares place.number change
  | _ => True

theorem Intact.perform (h : Intact own c w.area) (hc : c.Sound) {op : Op K V}
    (hop : op.Harmless c.settings.codec own) :
    Intact own (c.perform w op).state (c.perform w op).world.area := by
  cases op with
  | request r =>
    cases r with
    | insert k value => exact h.insert hc k hop
    | remove k => exact h.remove hc k
    | get k =>
      have hfound := h.found hc (find_found c w k)
      exact hfound.of_tiers rfl rfl rfl
    | contains k => exact h
    | keys => exact h.sinks hc (purgeExpired_sinks hc w)
    | size => exact h.sinks hc (purgeExpired_sinks hc w)
  | purgeExpired => exact h.sinks hc (purgeExpired_sinks hc w)
  | close => exact intact_close c w _
  | outside change => exact ⟨h.memory, fun t ht => (h.disk t ht).outside hop⟩

theorem Built.intact {b : Builder} {st : Storage K V} {w w' : World} (h : Built b st w c w') :
    Intact c.place c w'.area := by
  cases h with
  | memoryOnly hpersistence => exact ⟨nofun, nofun⟩
  | overDisk hpersistence hplace hunwritable =>
    refine ⟨nofun, fun t ht => ?_⟩
    rw [← Option.some.inj ht]
    exact ⟨nofun, fun place hplace => hplace⟩

theorem intact_run {b : Builder} {st : Storage K V} {w w' : World} (hstart : Built b st w c w')
    (turns : List (Turn K V)) (hturns : ∀ turn ∈ turns, turn.op.Harmless st.codec c.place) :
    Intact c.place (c.run w' turns).state (c.run w' turns).world.area := by
  have hkept := run_keeps (Q := Op.Harmless st.codec c.place) (w := w')
    (P := fun c' w _ => SameSetup c c' ∧ Intact c.place c' w.area)
    (fun c' w _ op hc hop h => by
      refine ⟨h.1.trans (hc.sameSetup_perform w op), h.2.perform hc ?_⟩
      rw [h.1.settings, hstart.setup.1]
      exact hop)
    (fun _ _ _ _ h => h) turns hturns [] hstart.sound ⟨.refl c, hstart.intact⟩
  exact hkept.2

/-! ## Looking up -/

theorem Intact.isSome_peek (h : Intact own c w.area) (k : K) :
    (c.peek w k).isSome = (c.stamps? k).any (c.fresh w) := by
  unfold peek stamps?
  cases hget : c.entries.get? k with
  | some e =>
    show (if c.fresh w e.stamps = true then some e.value else none).isSome = c.fresh w e.stamps
    cases c.fresh w e.stamps <;> rfl
  | none =>
    cases hdisk : c.disk with
    | none => rfl
    | some t =>
      simp only [Option.bind_some]
      unfold DiskTier.view?
      cases hstamps : t.stamps? k with
      | none => rfl
      | some stamps =>
        obtain ⟨bytes, v, hcontent, hread, -⟩ := (h.disk t hdisk).readable k stamps hstamps
        rw [hcontent, Option.bind_some, Option.bind_some, hread]
        show (if c.fresh w stamps = true then _ else none).isSome = c.fresh w stamps
        cases c.fresh w stamps <;> rfl

end Overflow

end CacheLayer
