import CacheLayer.Proofs.Overflow.Operations

/-!
# What a two-tier cache shows

`Overflow.view?` is what lies under a key, whichever tier has it: the stamps and the value, where the
value can be read. A look-up answers with the view of its key; the views of other keys do not enter.

* `get_answer` : what a look-up answers.
* `Sound.view?_cleared`, `view?_atFront` : what clearing a key and storing an entry do to the views.
-/

namespace CacheLayer

variable {K : Type u} {V : Type v} [DecidableEq K]

namespace DiskTier

/-- The stamps and the value of an entry on disk, if its file holds a value. -/
def view? (t : DiskTier K) (codec : Codec V) (area : FileArea) (k : K) :
    Option (Timestamps × V) :=
  (t.stamps? k).bind fun stamps =>
    (t.content? area k).bind fun bytes => (codec.read bytes).toOption.map fun v => (stamps, v)

theorem view?_without {t : DiskTier K} {codec : Codec V} {area area' : FileArea} {k k' : K}
    (h : (t.without k).content? area' k' = if k' = k then none else t.content? area k') :
    (t.without k).view? codec area' k' = if k' = k then none else t.view? codec area k' := by
  unfold view?
  rw [stamps?_without, h]
  split <;> rfl

theorem Sound.view?_write {t : DiskTier K} (h : t.Sound) {codec : Codec V} {area : FileArea} (k : K)
    {bytes : List UInt8} (stamps : Timestamps) {v : V} (haccepts : t.accepts area = true)
    (hread : codec.read bytes = .ok v) (k' : K) :
    (t.withWritten k bytes.length stamps).view? codec (t.write area k bytes stamps).area k' =
      if k' ∈ (t.listed k bytes.length).2 then none
      else if k' = k then some (stamps, v) else t.view? codec area k' := by
  have hcontent := h.content?_write k bytes stamps haccepts k'
  rw [h.write_tier haccepts] at hcontent
  unfold DiskTier.view?
  rw [stamps?_withWritten, hcontent]
  split
  · rfl
  · split
    · simp [hread, Except.toOption]
    · rfl

end DiskTier

namespace Overflow

def view? (c : Overflow K V) (area : FileArea) (k : K) : Option (Timestamps × V) :=
  match c.entries.get? k with
  | some e => some (e.stamps, e.value.value)
  | none => c.disk.bind fun t => t.view? c.settings.codec area k

/-- What a look-up finds: the shared object in memory, or a new one of what is on disk. -/
def peek (c : Overflow K V) (w : World) (k : K) : Option (Shared V) :=
  match c.entries.get? k with
  | some e => if (c.expiration w e).isNone then some e.value else none
  | none => (c.disk.bind fun t => t.view? c.settings.codec w.area k).bind fun found =>
    if (found.1.expiration w.now c.settings.timeToIdle).isNone then some ⟨w.nextId, found.2⟩
    else none

theorem promote_answer (c : Overflow K V) (w : World) (k : K) :
    (c.promote w k).answer = (c.disk.bind fun t => t.view? c.settings.codec w.area k).bind
      fun found => if (found.1.expiration w.now c.settings.timeToIdle).isNone
        then some ⟨w.nextId, found.2⟩ else none := by
  unfold promote DiskTier.view?
  split
  · rename_i hdisk
    rw [hdisk]
    rfl
  · rename_i t hdisk
    rw [hdisk, Option.bind_some]
    split
    · rename_i x hx
      -- it is expired: whether it could have been read makes no difference
      rw [DiskTier.expiration_eq] at hx
      obtain ⟨stamps, hstamps, hx⟩ := Option.bind_eq_some_iff.1 hx
      rw [hstamps, Option.bind_some]
      cases t.content? w.area k with
      | none => rfl
      | some bytes =>
        cases hread : c.settings.codec.read bytes with
        | error fault => simp [Step.mapAnswer, hread, Except.toOption]
        | ok v => simp [Step.mapAnswer, hread, Except.toOption, hx]
    · rename_i hlive
      split
      · rename_i htake
        have hcontains := (DiskTier.take_eq_none_iff t w.area k).1 htake
        rw [DiskTier.contains_eq_isSome, Option.isSome_eq_false_iff,
          Option.isNone_iff_eq_none] at hcontains
        rw [hcontains]
        rfl
      · rename_i taken htake
        rcases DiskTier.take_cases htake with
          ⟨hcontent, rfl⟩ | ⟨bytes, stamps, hcontent, hstamps, rfl⟩
        · rw [hcontent]
          cases t.stamps? k <;> rfl
        · rw [DiskTier.expiration_eq, hstamps] at hlive
          rw [hcontent, hstamps]
          dsimp only
          split
          · rename_i fault hread
            simp [hread, Step.pure, Except.toOption]
          · rename_i v hread
            have hlive : stamps.expiration w.now c.settings.timeToIdle = none := hlive
            simp [hread, Step.mapAnswer, Except.toOption, hlive, World.share]

theorem get_answer (c : Overflow K V) (w : World) (k : K) :
    (c.get w k).answer = c.peek w k := by
  show (c.find w k).answer = c.peek w k
  unfold find peek
  cases hget : c.entries.get? k with
  | none => exact promote_answer c w k
  | some e =>
    dsimp only
    cases hx : c.expiration w e with
    | some x => rfl
    | none => rfl

/-! ## How the view changes -/

theorem Sound.diskView?_cleared {c : Overflow K V} (h : c.Sound) (w : World) (k k' : K) :
    (((c.dropMemory k).dropDisk k).disk.bind fun t =>
      t.view? c.settings.codec (c.clearedWorld w k).area k') =
      if k' = k then none else c.disk.bind fun t => t.view? c.settings.codec w.area k' := by
  show ((c.disk.map fun t => t.without k).bind _) = _
  cases hdisk : c.disk with
  | none => simp
  | some t =>
    rw [clearedWorld_of_disk hdisk]
    exact DiskTier.view?_without ((h.disk t hdisk).content?_remove w.area k k')

theorem Sound.view?_cleared {c : Overflow K V} (h : c.Sound) (w : World) (k k' : K) :
    ((c.dropMemory k).dropDisk k).view? (c.clearedWorld w k).area k' =
      if k' = k then none else c.view? w.area k' := by
  have hdisk := h.diskView?_cleared w k k'
  have hmemory : ((c.dropMemory k).dropDisk k).entries.get? k' =
      if k' = k then none else c.entries.get? k' := Table.get?_erase _ _ _
  unfold view?
  rw [hmemory]
  by_cases hk : k' = k
  · rw [if_pos hk] at hdisk ⊢
    rw [if_pos hk]
    exact hdisk
  · rw [if_neg hk] at hdisk ⊢
    rw [if_neg hk]
    cases c.entries.get? k' with
    | none => exact hdisk
    | some e => rfl

theorem view?_atFront (c : Overflow K V) (area : FileArea) (k k' : K) (e : Entry V) :
    (c.atFront k e).view? area k' =
      if k' = k then some (e.stamps, e.value.value) else c.view? area k' := by
  have hmemory : (c.atFront k e).entries.get? k' =
      if k' = k then some e else c.entries.get? k' := Table.get?_insert _ _ _ _
  unfold view?
  rw [hmemory]
  split
  · rename_i found hfound
    split at hfound
    · rename_i hk
      rw [if_pos hk, ← Option.some.inj hfound]
    · rename_i hk
      rw [if_neg hk, hfound]
  · rename_i hfound
    split at hfound
    · cases hfound
    · rename_i hk
      rw [if_neg hk, hfound]
      rfl

theorem view?_dropMemory_of_none {c : Overflow K V} (hdisk : c.disk = none) (area : FileArea)
    (k k' : K) :
    (c.dropMemory k).view? area k' = if k' = k then none else c.view? area k' := by
  have hmemory : (c.dropMemory k).entries.get? k' =
      if k' = k then none else c.entries.get? k' := Table.get?_erase _ _ _
  have hsame : (c.dropMemory k).disk = none := hdisk
  unfold view?
  rw [hmemory, hsame, hdisk]
  by_cases hk : k' = k
  · rw [if_pos hk, if_pos hk]
    rfl
  · rw [if_neg hk, if_neg hk]
    rfl

/-- An entry that moves from memory to disk shows as before, unless it is pushed off there. -/
theorem Sound.view?_spilled {c : Overflow K V} (h : c.Sound) {t : DiskTier K} (hdisk : c.disk = some t)
    {area : FileArea} {k : K} {e : Entry V} (hget : c.entries.get? k = some e)
    (haccepts : t.accepts area = true) {bytes : List UInt8}
    (hread : c.settings.codec.read bytes = .ok e.value.value) (k' : K) :
    view? { c.dropMemory k with disk := some (t.withWritten k bytes.length e.stamps) }
      (t.write area k bytes e.stamps).area k' =
      if k' ∈ (t.listed k bytes.length).2 then none else c.view? area k' := by
  have hmemory : (c.dropMemory k).entries.get? k' =
      if k' = k then none else c.entries.get? k' := Table.get?_erase _ _ _
  have hwrite := (h.disk t hdisk).view?_write k e.stamps haccepts hread k'
  unfold view?
  simp only [hmemory, Option.bind_some]
  by_cases hk : k' = k
  · rw [if_pos hk] at hwrite ⊢
    rw [hk, hget]
    rw [hk] at hwrite
    exact hwrite
  · rw [if_neg hk] at hwrite ⊢
    cases hget' : c.entries.get? k' with
    | some e' =>
      have hkeeps : k' ∉ (t.listed k bytes.length).2 := by
        intro hpushed
        rcases (h.disk t hdisk).of_mem_pushed hpushed with heq | hon
        · exact hk heq
        · rw [← onDisk_of_disk hdisk, h.not_onDisk hget'] at hon
          cases hon
      rw [if_neg hkeeps]
    | none =>
      rw [hdisk]
      exact hwrite

end Overflow

end CacheLayer
