import CacheLayer.Proofs.FileArea
import CacheLayer.Proofs.Recency

/-!
# The theory of the disk tier

A tier is seen through its recency list, `stamps?` and `content?`, the bytes that lie in the file of
a key. `DiskTier.Sound` is what every operation keeps: slots and recency list know the same keys, and
no two slots share a file number, so that what happens to the file of one key leaves the files of
the others alone.

* `Sound.remove_tier`, `Sound.content?_remove` : removing an entry.
* `Sound.write_cases` : a write fails and stores nothing, or puts the entry at the front and pushes
  out the end of the list.
* `take_cases` : taking gives what lies in the file and removes the entry.
-/

namespace CacheLayer

theorem DiskTier.fileName_injective : Function.Injective DiskTier.fileName := by
  intro m n h
  exact Text.paddedHex_injective 16 (String.append_left_inj ".bin" |>.1 h)

/-- The areas have the same private directories and refuse to write the same files. -/
def FileArea.SameTiers (a b : FileArea) : Prop :=
  (∀ number, b.hasTier number = a.hasTier number) ∧ b.unwritable = a.unwritable

namespace FileArea.SameTiers

theorem refl (a : FileArea) : SameTiers a a := ⟨fun _ => rfl, rfl⟩

theorem trans {a b c : FileArea} (h : SameTiers a b) (h' : SameTiers b c) : SameTiers a c :=
  ⟨fun n => (h'.1 n).trans (h.1 n), h'.2.trans h.2⟩

theorem delete (a : FileArea) (number : Nat) (name : String) :
    SameTiers a (a.delete number name) :=
  ⟨fun n => hasTier_delete a number n name, rfl⟩

theorem write {a b : FileArea} {number : Nat} {name : String} {bytes : List UInt8}
    (h : a.write number name bytes = some b) : SameTiers a b :=
  ⟨hasTier_write h, unwritable_write h⟩

end FileArea.SameTiers

namespace DiskTier

variable {K : Type u} [DecidableEq K]

/-! ## The view of a tier -/

def stamps? (t : DiskTier K) (k : K) : Option Timestamps := (t.slots.get? k).map DiskSlot.stamps

/-- The bytes in the file of `k`, if it has one that can be read. -/
def content? (t : DiskTier K) (area : FileArea) (k : K) : Option (List UInt8) :=
  (t.slots.get? k).bind fun slot =>
    t.place.bind fun place => area.read place.number (fileName slot.fileId)

/-- Whether the next write succeeds: the tier is open, its directory exists and the next file can be
written. -/
def accepts (t : DiskTier K) (area : FileArea) : Bool :=
  match t.place with
  | some place => area.hasTier place.number &&
      !area.unwritable place.number (fileName t.nextFileId)
  | none => false

/-- No two slots share a file. -/
def DistinctFiles (t : DiskTier K) : Prop :=
  ∀ k k' slot slot', t.slots.get? k = some slot → t.slots.get? k' = some slot' →
    slot.fileId = slot'.fileId → k = k'

/-- The slots belong to the listed keys, and no two of them share a file, which none that is written
later will have. -/
structure Sound (t : DiskTier K) : Prop where
  order : t.order.Sound
  keys : ∀ k, t.contains k = true ↔ k ∈ t.order.keys
  fresh : ∀ k slot, t.slots.get? k = some slot → slot.fileId < t.nextFileId
  distinct : t.DistinctFiles

theorem sound_empty (place : Option TierPlace) (bound : Bound) (nextFileId : Nat) :
    (⟨place, .empty, .empty, bound, nextFileId⟩ : DiskTier K).Sound where
  order := Recency.sound_empty
  keys k := by simp [contains]
  fresh k slot h := by simp at h
  distinct k k' slot slot' h := by simp at h

theorem contains_eq_isSome (t : DiskTier K) (k : K) : t.contains k = (t.stamps? k).isSome := by
  simp [contains, stamps?, Table.contains]

theorem expiration_eq (t : DiskTier K) (now : Nat) (timeToIdle : Option Duration) (k : K) :
    t.expiration now timeToIdle k = (t.stamps? k).bind fun s => s.expiration now timeToIdle := by
  unfold expiration stamps?
  cases t.slots.get? k <;> rfl

theorem content?_of_not_contains {t : DiskTier K} {k : K} (h : t.contains k = false)
    (area : FileArea) : t.content? area k = none := by
  rw [content?, Table.get?_eq_none_of_contains h]
  rfl

theorem DistinctFiles.erase {t : DiskTier K} (h : t.DistinctFiles) (k : K) :
    DistinctFiles { t with slots := t.slots.erase k } := by
  intro i j slot slot' hi hj
  simp only [Table.get?_erase] at hi hj
  split at hi
  · cases hi
  · split at hj
    · cases hj
    · exact h i j slot slot' hi hj

/-! ## Dropping slots -/

theorem deleteSlot_tier (t : DiskTier K) (area : FileArea) (k : K) :
    (t.deleteSlot area k).1 = { t with slots := t.slots.erase k } := by
  unfold deleteSlot
  cases h : t.slots.get? k with
  | none => rw [Table.erase_of_not_contains (by simp [Table.contains, h])]
  | some slot => rfl

theorem deleteSlot_sameTiers (t : DiskTier K) (area : FileArea) (k : K) :
    FileArea.SameTiers area (t.deleteSlot area k).2 := by
  unfold deleteSlot
  split
  · exact .refl area
  · split
    · exact .delete area _ _
    · exact .refl area

theorem content?_deleteSlot {t : DiskTier K} (hdistinct : t.DistinctFiles) (area : FileArea)
    (k k' : K) :
    (t.deleteSlot area k).1.content? (t.deleteSlot area k).2 k' =
      if k' = k then none else t.content? area k' := by
  rw [deleteSlot_tier]
  unfold content? deleteSlot
  simp only [Table.get?_erase]
  by_cases hk : k' = k
  · simp [hk]
  · simp only [if_neg hk]
    cases hslot : t.slots.get? k with
    | none => rfl
    | some slot =>
      cases hslot' : t.slots.get? k' with
      | none => rfl
      | some slot' =>
        cases hplace : t.place with
        | none => rfl
        | some place =>
          have hname : fileName slot'.fileId ≠ fileName slot.fileId := fun h =>
            hk (hdistinct k' k slot' slot hslot' hslot (fileName_injective h))
          simp [FileArea.read_delete, hname]

theorem deleteSlots_tier (ks : List K) (t : DiskTier K) (area : FileArea) :
    (t.deleteSlots area ks).1 = { t with slots := ks.foldl Table.erase t.slots } := by
  induction ks generalizing t area with
  | nil => rfl
  | cons k ks ih =>
    rw [deleteSlots]
    simp only [ih, deleteSlot_tier, List.foldl_cons]

theorem deleteSlots_sameTiers (ks : List K) (t : DiskTier K) (area : FileArea) :
    FileArea.SameTiers area (t.deleteSlots area ks).2 := by
  induction ks generalizing t area with
  | nil => exact .refl area
  | cons k ks ih => exact (deleteSlot_sameTiers t area k).trans (ih _ _)

theorem content?_deleteSlots (ks : List K) {t : DiskTier K} (hdistinct : t.DistinctFiles)
    (area : FileArea) (k' : K) :
    (t.deleteSlots area ks).1.content? (t.deleteSlots area ks).2 k' =
      if k' ∈ ks then none else t.content? area k' := by
  induction ks generalizing t area with
  | nil => simp [deleteSlots]
  | cons k ks ih =>
    have herase : (t.deleteSlot area k).1.DistinctFiles := by
      rw [deleteSlot_tier]
      exact hdistinct.erase k
    rw [deleteSlots]
    simp only [ih herase, content?_deleteSlot hdistinct]
    by_cases hk : k' = k <;> by_cases hks : k' ∈ ks <;> simp [hk, hks]

/-! ## Removing and taking -/

def without (t : DiskTier K) (k : K) : DiskTier K :=
  { t with slots := t.slots.erase k, order := t.order.remove k }

theorem stamps?_without (t : DiskTier K) (k k' : K) :
    (t.without k).stamps? k' = if k' = k then none else t.stamps? k' := by
  unfold stamps? without
  rw [Table.get?_erase]
  split <;> rfl

/-- In one and the same area, losing an entry leaves the files of the others. -/
theorem content?_without (t : DiskTier K) (area : FileArea) (k k' : K) :
    (t.without k).content? area k' = if k' = k then none else t.content? area k' := by
  unfold content? without
  rw [Table.get?_erase]
  split <;> rfl

theorem Sound.without {t : DiskTier K} (h : t.Sound) (k : K) : (t.without k).Sound where
  order := h.order.remove k
  keys k' := by
    show (t.slots.erase k).contains k' = true ↔ k' ∈ (t.order.remove k).keys
    rw [Table.contains_erase, Recency.mem_keys_remove, ← h.keys]
    simp [contains]
  fresh k' slot hslot := by
    simp only [DiskTier.without, Table.get?_erase] at hslot
    split at hslot
    · cases hslot
    · exact h.fresh k' slot hslot
  distinct := h.distinct.erase k

/-- A file number may go unused. -/
theorem Sound.bump {t : DiskTier K} (h : t.Sound) :
    DiskTier.Sound { t with nextFileId := t.nextFileId + 1 } where
  order := h.order
  keys := h.keys
  fresh k slot hslot := Nat.lt_succ_of_lt (h.fresh k slot hslot)
  distinct := h.distinct

theorem Sound.without_eq_self {t : DiskTier K} (h : t.Sound) {k : K} (hk : t.contains k = false) :
    t.without k = t := by
  have hlisted : k ∉ t.order.keys := by
    rw [← h.keys, hk]
    exact Bool.false_ne_true
  rw [DiskTier.without, Table.erase_of_not_contains hk, Recency.remove_of_not_mem hlisted]

theorem Sound.weight?_eq_none_iff {t : DiskTier K} (h : t.Sound) (k : K) :
    t.order.weight? k = none ↔ t.contains k = false := by
  rw [Recency.weight?_eq_none_iff, ← h.keys, Bool.not_eq_true]

theorem Sound.remove_tier {t : DiskTier K} (h : t.Sound) (area : FileArea) (k : K) :
    (t.remove area k).tier = t.without k := by
  unfold DiskTier.remove
  cases hw : t.order.weight? k with
  | none => rw [h.without_eq_self ((h.weight?_eq_none_iff k).1 hw)]
  | some w =>
    simp only [deleteSlot_tier]
    rfl

theorem Sound.remove_answer {t : DiskTier K} (h : t.Sound) (area : FileArea) (k : K) :
    (t.remove area k).answer = t.contains k := by
  have hw := h.weight?_eq_none_iff k
  unfold DiskTier.remove
  cases hweight : t.order.weight? k with
  | none => exact (hw.1 hweight).symm
  | some w =>
    rw [hweight] at hw
    cases hk : t.contains k with
    | true => rfl
    | false => cases hw.2 hk

theorem Sound.remove_area {t : DiskTier K} (h : t.Sound) {k : K} (hk : t.contains k = false)
    (area : FileArea) : (t.remove area k).area = area := by
  rw [DiskTier.remove, (h.weight?_eq_none_iff k).2 hk]

theorem Sound.remove_area_eq {t : DiskTier K} (h : t.Sound) (area : FileArea) (k : K) :
    (t.remove area k).area = (t.deleteSlot area k).2 := by
  cases hcontains : t.contains k with
  | false =>
    rw [h.remove_area hcontains, DiskTier.deleteSlot, Table.get?_eq_none_of_contains hcontains]
  | true =>
    obtain ⟨slot, hslot⟩ := Table.get?_of_contains hcontains
    have hlisted := h.weight?_eq_none_iff k
    unfold DiskTier.remove DiskTier.deleteSlot
    cases hweight : t.order.weight? k with
    | none =>
      rw [hlisted.1 hweight] at hcontains
      cases hcontains
    | some w => simp only [hslot]

theorem remove_sameTiers (t : DiskTier K) (area : FileArea) (k : K) :
    FileArea.SameTiers area (t.remove area k).area := by
  unfold remove
  split
  · exact .refl area
  · exact deleteSlot_sameTiers _ area k

theorem Sound.content?_remove {t : DiskTier K} (h : t.Sound) (area : FileArea) (k k' : K) :
    (t.without k).content? (t.remove area k).area k' =
      if k' = k then none else t.content? area k' := by
  rw [← h.remove_tier area k]
  unfold DiskTier.remove
  cases hw : t.order.weight? k with
  | none =>
    by_cases hk : k' = k
    · rw [if_pos hk, hk]
      exact content?_of_not_contains ((h.weight?_eq_none_iff k).1 hw) area
    · rw [if_neg hk]
  | some w =>
    exact content?_deleteSlot (t := { t with order := t.order.remove k }) h.distinct area k k'

theorem take_eq_none_iff (t : DiskTier K) (area : FileArea) (k : K) :
    t.take area k = none ↔ t.contains k = false := by
  simp [take, contains, Table.contains]

theorem contains_of_take {t : DiskTier K} {area : FileArea} {k : K}
    {c : Change K (Option (List UInt8 × Timestamps))} (h : t.take area k = some c) :
    t.contains k = true := by
  by_contra hk
  rw [Bool.not_eq_true] at hk
  rw [(t.take_eq_none_iff area k).2 hk] at h
  cases h

/-- Taking an entry gives what lies in its file, which is deleted, with its stamps, or nothing where
the file cannot be read; the entry is gone either way. -/
theorem take_cases {t : DiskTier K} {area : FileArea} {k : K}
    {c : Change K (Option (List UInt8 × Timestamps))} (h : t.take area k = some c) :
    (t.content? area k = none ∧ c = ⟨none, t.without k, area⟩) ∨
    ∃ bytes stamps, t.content? area k = some bytes ∧ t.stamps? k = some stamps ∧
      c = ⟨some (bytes, stamps), t.without k, (t.deleteSlot area k).2⟩ := by
  obtain ⟨slot, hslot, rfl⟩ := Option.map_eq_some_iff.1 h
  unfold content? stamps? without deleteSlot
  rw [hslot]
  obtain ⟨place, slots, order, bound, nextFileId⟩ := t
  cases place with
  | none => exact .inl ⟨rfl, rfl⟩
  | some place =>
    cases hread : area.read place.number (fileName slot.fileId) with
    | none => exact .inl ⟨hread, by simp only [hread]⟩
    | some bytes => exact .inr ⟨bytes, slot.stamps, hread, rfl, by simp only [hread]⟩

theorem take_tier {t : DiskTier K} {area : FileArea} {k : K}
    {c : Change K (Option (List UInt8 × Timestamps))} (h : t.take area k = some c) :
    c.tier = t.without k := by
  rcases take_cases h with ⟨-, rfl⟩ | ⟨bytes, stamps, -, -, rfl⟩ <;> rfl

theorem Sound.content?_take {t : DiskTier K} (h : t.Sound) {area : FileArea} {k : K}
    {c : Change K (Option (List UInt8 × Timestamps))} (hc : t.take area k = some c) (k' : K) :
    c.tier.content? c.area k' = if k' = k then none else t.content? area k' := by
  rcases take_cases hc with ⟨-, rfl⟩ | ⟨bytes, stamps, -, -, rfl⟩
  · exact content?_without t area k k'
  · have hdelete := content?_deleteSlot h.distinct area k k'
    rw [deleteSlot_tier] at hdelete
    exact hdelete

/-! ## Writing -/

/-- The recency list after `k` was written with so many bytes, and the keys that no longer fit. -/
def listed (t : DiskTier K) (k : K) (bytes : Nat) : Recency K × List K :=
  Recency.trim t.bound.exceededBy (t.order.pushFront k bytes).size (t.order.pushFront k bytes)

/-- The tier after a write that the area lets through. -/
def withWritten (t : DiskTier K) (k : K) (bytes : Nat) (stamps : Timestamps) : DiskTier K :=
  { t with
    slots := (t.listed k bytes).2.foldl Table.erase (t.slots.insert k ⟨t.nextFileId, stamps⟩)
    order := (t.listed k bytes).1
    nextFileId := t.nextFileId + 1 }

omit [DecidableEq K] in
theorem accepts_eq_isSome (t : DiskTier K) (area : FileArea) (bytes : List UInt8) :
    t.accepts area = (t.place.bind fun place =>
      area.write place.number (fileName t.nextFileId) bytes).isSome := by
  unfold accepts
  cases t.place with
  | none => rfl
  | some place => exact (FileArea.write_isSome _ _ _ _).symm

omit [DecidableEq K] in
theorem accepts_congr {t t' : DiskTier K} {a b : FileArea} (h : FileArea.SameTiers a b)
    (hplace : t'.place = t.place) (hnext : t'.nextFileId = t.nextFileId) :
    t'.accepts b = t.accepts a := by
  unfold accepts
  rw [hplace, hnext, h.2]
  cases t.place with
  | none => rfl
  | some place => simp only [h.1]

theorem Sound.weight?_listed {t : DiskTier K} (h : t.Sound) (k k' : K) (bytes : Nat) :
    (t.listed k bytes).1.weight? k' =
      if k' ∈ (t.listed k bytes).2 then none
      else if k' = k then some bytes else t.order.weight? k' := by
  unfold listed
  rw [(h.order.pushFront k bytes).trim_eq, Recency.weight?_foldl_remove, Recency.weight?_pushFront]

/-- What is pushed off was on disk, or is the entry itself. -/
theorem Sound.of_mem_pushed {t : DiskTier K} (h : t.Sound) {k k' : K} {bytes : Nat}
    (hpushed : k' ∈ (t.listed k bytes).2) : k' = k ∨ t.contains k' = true := by
  have hkeys := Recency.trim_keys t.bound.exceededBy (t.order.pushFront k bytes).size _
    (h.order.pushFront k bytes)
  have hmem : k' ∈ (t.order.pushFront k bytes).keys := by
    rw [← hkeys]
    exact List.mem_append_right _ (List.mem_reverse.2 hpushed)
  rw [h.keys]
  exact (Recency.mem_keys_pushFront _ _ _ _).1 hmem

theorem Sound.mem_listed {t : DiskTier K} (h : t.Sound) (k k' : K) (bytes : Nat) :
    k' ∈ (t.listed k bytes).1.keys ↔ (k' = k ∨ k' ∈ t.order.keys) ∧ k' ∉ (t.listed k bytes).2 := by
  rw [listed, (h.order.pushFront k bytes).mem_keys_trim, Recency.mem_keys_pushFront]

theorem stamps?_withWritten (t : DiskTier K) (k k' : K) (bytes : Nat) (stamps : Timestamps) :
    (t.withWritten k bytes stamps).stamps? k' =
      if k' ∈ (t.listed k bytes).2 then none else if k' = k then some stamps else t.stamps? k' := by
  unfold stamps? withWritten
  simp only [Table.get?_foldl_erase, Table.get?_insert]
  split
  · rfl
  · split <;> rfl

theorem Sound.slot_withWritten {t : DiskTier K} {k k' : K} {bytes : Nat} {stamps : Timestamps}
    {slot : DiskSlot} (h : (t.withWritten k bytes stamps).slots.get? k' = some slot) :
    (k' = k ∧ slot = ⟨t.nextFileId, stamps⟩) ∨ (k' ≠ k ∧ t.slots.get? k' = some slot) := by
  simp only [withWritten, Table.get?_foldl_erase, Table.get?_insert] at h
  split at h
  · cases h
  · split at h
    · rename_i hk
      exact .inl ⟨hk, (Option.some.inj h).symm⟩
    · rename_i hk
      exact .inr ⟨hk, h⟩

theorem DistinctFiles.insert {t : DiskTier K} (h : t.DistinctFiles)
    (hfresh : ∀ k slot, t.slots.get? k = some slot → slot.fileId < t.nextFileId) (k : K)
    (stamps : Timestamps) :
    DistinctFiles { t with slots := t.slots.insert k ⟨t.nextFileId, stamps⟩ } := by
  intro i j slot slot' hi hj hid
  simp only [Table.get?_insert] at hi hj
  split at hi <;> split at hj
  · rename_i hik hjk
    rw [hik, hjk]
  · have := hfresh j slot' hj
    rw [← Option.some.inj hi] at hid
    simp only at hid
    omega
  · have := hfresh i slot hi
    rw [← Option.some.inj hj] at hid
    simp only at hid
    omega
  · exact h i j slot slot' hi hj hid

theorem DistinctFiles.foldl_erase {t : DiskTier K} (h : t.DistinctFiles) (ks : List K) :
    DistinctFiles { t with slots := ks.foldl Table.erase t.slots } := by
  induction ks generalizing t with
  | nil => exact h
  | cons k ks ih => exact ih (h.erase k)

theorem Sound.withWritten {t : DiskTier K} (h : t.Sound) (k : K) (bytes : Nat)
    (stamps : Timestamps) : (t.withWritten k bytes stamps).Sound where
  order := (h.order.pushFront k bytes).trim _ _
  keys k' := by
    have hslots : (t.withWritten k bytes stamps).contains k' =
        (decide (k' ∉ (t.listed k bytes).2) && (decide (k' = k) || t.contains k')) := by
      unfold DiskTier.withWritten DiskTier.contains
      rw [Table.contains_foldl_erase, Table.contains_insert]
    rw [hslots]
    show _ ↔ k' ∈ (t.listed k bytes).1.keys
    rw [h.mem_listed, ← h.keys]
    simp [and_comm]
  fresh k' slot hslot := by
    rcases slot_withWritten hslot with ⟨-, rfl⟩ | ⟨-, hslot⟩
    · exact Nat.lt_succ_self _
    · exact Nat.lt_succ_of_lt (h.fresh k' slot hslot)
  distinct := (h.distinct.insert h.fresh k stamps).foldl_erase _

/-- The tier with the entry written, before the keys that no longer fit lose their files. -/
def withEntry (t : DiskTier K) (k : K) (bytes : Nat) (stamps : Timestamps) : DiskTier K :=
  { t with
    slots := t.slots.insert k ⟨t.nextFileId, stamps⟩
    order := (t.listed k bytes).1
    nextFileId := t.nextFileId + 1 }

/-- A write fails and leaves no entry of `k`, or it puts the entry at the front and pushes out the
end of the list. -/
theorem Sound.write_cases {t : DiskTier K} (h : t.Sound) (area : FileArea) (k : K)
    (bytes : List UInt8) (stamps : Timestamps) :
    (t.accepts area = false ∧ t.write area k bytes stamps =
      ⟨none, { t.without k with nextFileId := t.nextFileId + 1 }, (t.remove area k).area⟩) ∨
    ∃ place written, t.accepts area = true ∧ t.place = some place ∧
      (t.remove area k).area.write place.number (fileName t.nextFileId) bytes = some written ∧
      t.write area k bytes stamps =
        ⟨some (t.listed k bytes.length).2, t.withWritten k bytes.length stamps,
          ((t.withEntry k bytes.length stamps).deleteSlots written
            (t.listed k bytes.length).2).2⟩ := by
  have haccepts : t.accepts area = (t.place.bind fun place =>
      (t.remove area k).area.write place.number (fileName t.nextFileId) bytes).isSome := by
    rw [← accepts_eq_isSome]
    exact (accepts_congr (remove_sameTiers t area k) rfl rfl).symm
  have horder : (t.without k).order.pushFront k bytes.length = t.order.pushFront k bytes.length :=
    Recency.pushFront_remove _ _ _
  have hslots (slot : DiskSlot) : (t.without k).slots.insert k slot = t.slots.insert k slot :=
    Table.insert_erase _ _ _
  unfold DiskTier.write
  simp only [h.remove_tier, horder, hslots]
  cases hwrite : (t.place.bind fun place =>
      (t.remove area k).area.write place.number (fileName t.nextFileId) bytes) with
  | none =>
    have hplace : ((t.without k).place.bind fun place => (t.remove area k).area.write place.number
        (fileName (t.without k).nextFileId) bytes) = none := hwrite
    rw [hwrite] at haccepts
    exact .inl ⟨haccepts, by rw [hplace]; rfl⟩
  | some written =>
    have hplace : ((t.without k).place.bind fun place => (t.remove area k).area.write place.number
        (fileName (t.without k).nextFileId) bytes) = some written := hwrite
    obtain ⟨place, htier, hwritten⟩ := Option.bind_eq_some_iff.1 hwrite
    rw [hwrite] at haccepts
    refine .inr ⟨place, written, haccepts, htier, hwritten, ?_⟩
    rw [hplace]
    simp only [deleteSlots_tier]
    rfl

theorem write_sameTiers (t : DiskTier K) (area : FileArea) (k : K) (bytes : List UInt8)
    (stamps : Timestamps) : FileArea.SameTiers area (t.write area k bytes stamps).area := by
  have hremove := remove_sameTiers t area k
  unfold write
  dsimp only
  split
  · exact hremove
  · rename_i written hwritten
    obtain ⟨place, -, hwritten⟩ := Option.bind_eq_some_iff.1 hwritten
    exact (hremove.trans (.write hwritten)).trans (deleteSlots_sameTiers _ _ _)

theorem Sound.write_tier_failed {t : DiskTier K} (h : t.Sound) {area : FileArea}
    (haccepts : t.accepts area = false) (k : K) (bytes : List UInt8) (stamps : Timestamps) :
    (t.write area k bytes stamps).tier =
      { t.without k with nextFileId := t.nextFileId + 1 } := by
  rcases h.write_cases area k bytes stamps with ⟨-, hwrite⟩ | ⟨_, _, haccepts', -, -, -⟩
  · rw [hwrite]
  · rw [haccepts'] at haccepts
    cases haccepts

theorem Sound.write_tier {t : DiskTier K} (h : t.Sound) {area : FileArea}
    (haccepts : t.accepts area = true) (k : K) (bytes : List UInt8) (stamps : Timestamps) :
    (t.write area k bytes stamps).tier = t.withWritten k bytes.length stamps := by
  rcases h.write_cases area k bytes stamps with ⟨haccepts', -⟩ | ⟨_, _, -, -, -, hwrite⟩
  · rw [haccepts'] at haccepts
    cases haccepts
  · rw [hwrite]

theorem Sound.content?_write_failed {t : DiskTier K} (h : t.Sound) {area : FileArea} (k : K)
    (bytes : List UInt8) (stamps : Timestamps) (haccepts : t.accepts area = false) (k' : K) :
    (t.write area k bytes stamps).tier.content? (t.write area k bytes stamps).area k' =
      if k' = k then none else t.content? area k' := by
  rcases h.write_cases area k bytes stamps with ⟨-, hwrite⟩ | ⟨_, _, haccepts', -, -, -⟩
  · rw [hwrite]
    exact h.content?_remove area k k'
  · rw [haccepts'] at haccepts
    cases haccepts

/-- A write changes the file of no key but its own, and the pushed out keys lose theirs. -/
theorem Sound.content?_write {t : DiskTier K} (h : t.Sound) {area : FileArea} (k : K)
    (bytes : List UInt8) (stamps : Timestamps) (haccepts : t.accepts area = true) (k' : K) :
    (t.write area k bytes stamps).tier.content? (t.write area k bytes stamps).area k' =
      if k' ∈ (t.listed k bytes.length).2 then none
      else if k' = k then some bytes else t.content? area k' := by
  rcases h.write_cases area k bytes stamps with
    ⟨haccepts', -⟩ | ⟨place, written, -, hplace, hwritten, hwrite⟩
  · rw [haccepts'] at haccepts
    cases haccepts
  · have hdistinct : (t.withEntry k bytes.length stamps).DistinctFiles :=
      h.distinct.insert h.fresh k stamps
    have hdelete := content?_deleteSlots (t.listed k bytes.length).2 hdistinct written k'
    rw [deleteSlots_tier] at hdelete
    rw [hwrite]
    refine Eq.trans hdelete ?_
    split
    · rfl
    · -- the new file has a number that no slot has yet
      unfold content? withEntry
      simp only [Table.get?_insert, hplace, Option.bind_some]
      by_cases hk : k' = k
      · simp [hk, FileArea.read_write hwritten]
      · have hremove := h.content?_remove area k k'
        unfold content? DiskTier.without at hremove
        simp only [Table.get?_erase, if_neg hk, hplace, Option.bind_some] at hremove ⊢
        rw [← hremove]
        cases hslot : t.slots.get? k' with
        | none => rfl
        | some slot =>
          have hname : fileName slot.fileId ≠ fileName t.nextFileId := fun hname => by
            have := h.fresh k' slot hslot
            rw [fileName_injective hname] at this
            exact Nat.lt_irrefl _ this
          simp [FileArea.read_write hwritten, hname]

end DiskTier

end CacheLayer
