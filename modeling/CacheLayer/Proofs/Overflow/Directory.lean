import CacheLayer.Proofs.Overflow.OwnFiles
import CacheLayer.Proofs.Overflow.SingleList
import Mathlib.Data.List.Perm.Basic
import Mathlib.Data.Option.Basic

/-!
# The directory of a disk tier

In the directory of an open tier there is one file for each entry and nothing else, and the tier lists
each entry with the number of bytes in its file. A deletion takes away one slot with its file, so it is
kept slot by slot; a write puts a file there whose number no slot has had yet.

* `DiskTier.Owned` : every file in the directory belongs to a slot; kept by `deleteSlot` and by writing.
* `DiskTier.Filed` : the tier lists what lies in its directory; `Filed.without`, `Filed.write` : kept by
  what changes the tier.
* `LiesIn` : what the directory looks like; `Filed.liesIn` : and so it does.
-/

namespace CacheLayer.DiskTier

variable {K : Type u} {V : Type v} [DecidableEq K] {codec : Codec V} {t t' : DiskTier K}
  {area area' : FileArea}

/-! ## No stray files -/

def Owned (t : DiskTier K) (area : FileArea) : Prop :=
  ∀ place name bytes, t.place = some place → area.read place.number name = some bytes →
    ∃ k slot, t.slots.get? k = some slot ∧ fileName slot.fileId = name

theorem Owned.congr (h : t.Owned area) (hplace : t'.place = t.place) (hslots : t'.slots = t.slots) :
    t'.Owned area := by
  unfold Owned
  rw [hplace, hslots]
  exact h

theorem Owned.deleteSlot (h : t.Owned area) (k : K) :
    (t.deleteSlot area k).1.Owned (t.deleteSlot area k).2 := by
  unfold DiskTier.deleteSlot
  cases hslot : t.slots.get? k with
  | none => exact h
  | some slot =>
    intro place name bytes hplace hread
    have hplace : t.place = some place := hplace
    simp only [hplace, FileArea.read_delete, true_and] at hread
    split at hread
    · cases hread
    · rename_i hname
      obtain ⟨k', slot', hslot', hfile⟩ := h place name bytes hplace hread
      have hk : k' ≠ k := by
        rintro rfl
        rw [hslot] at hslot'
        exact hname (hfile.symm.trans (congrArg _ (congrArg _ (Option.some.inj hslot').symm)))
      exact ⟨k', slot', by rw [Table.get?_erase, if_neg hk, hslot'], hfile⟩

theorem Owned.deleteSlots (ks : List K) (h : t.Owned area) :
    (t.deleteSlots area ks).1.Owned (t.deleteSlots area ks).2 := by
  induction ks generalizing t area with
  | nil => exact h
  | cons k ks ih => exact ih (h.deleteSlot k)

theorem Owned.without (h : t.Owned area) (k : K) :
    (t.without k).Owned (t.deleteSlot area k).2 :=
  (h.deleteSlot k).congr (by rw [deleteSlot_tier]; rfl) (by rw [deleteSlot_tier]; rfl)

/-- A written entry has a slot for its file, and pushed out entries leave no files. -/
theorem Owned.write (h : t.Owned area) (ht : t.Sound) (haccepts : t.accepts area = true) (k : K)
    (bytes : List UInt8) (stamps : Timestamps) :
    (t.withWritten k bytes.length stamps).Owned (t.write area k bytes stamps).area := by
  rcases ht.write_cases area k bytes stamps with
    ⟨haccepts', -⟩ | ⟨place, written, -, hplace, hwritten, hwrite⟩
  · rw [haccepts'] at haccepts
    cases haccepts
  · have hentry : (t.withEntry k bytes.length stamps).Owned written := by
      intro place' name content hplace' hread
      obtain rfl : place' = place := Option.some.inj (hplace'.symm.trans hplace)
      unfold withEntry
      rw [FileArea.read_write hwritten] at hread
      split at hread
      · rename_i hnew
        exact ⟨k, ⟨t.nextFileId, stamps⟩, by rw [Table.get?_insert, if_pos rfl], hnew.2.symm⟩
      · rw [ht.remove_area_eq] at hread
        obtain ⟨k', slot, hslot, hfile⟩ := h.without k place' name content hplace hread
        have hslot : (t.slots.erase k).get? k' = some slot := hslot
        rw [Table.get?_erase] at hslot
        split at hslot
        · cases hslot
        · rename_i hk
          exact ⟨k', slot, by rw [Table.get?_insert, if_neg hk, hslot], hfile⟩
    have hpushed := hentry.deleteSlots (t.listed k bytes.length).2
    rw [hwrite]
    exact hpushed.congr (by rw [deleteSlots_tier]; rfl) (by rw [deleteSlots_tier]; rfl)

/-! ## Files and entries -/

/-- The tier takes what it is given and lists the sizes of the files of its entries, which hold encoded
values; there are no other files. -/
structure Filed (codec : Codec V) (t : DiskTier K) (area : FileArea) : Prop where
  healthy : t.Healthy area
  weights : ∀ k, t.order.weight? k = (t.content? area k).map List.length
  encoded : ∀ k bytes, t.content? area k = some bytes → ∃ v, codec.encode v = .ok bytes
  owned : t.Owned area

theorem Filed.without (h : t.Filed codec area) (ht : t.Sound) (k : K) :
    (t.without k).Filed codec (t.deleteSlot area k).2 := by
  have hcontent (k' : K) : (t.without k).content? (t.deleteSlot area k).2 k' =
      if k' = k then none else t.content? area k' := by
    rw [← ht.remove_area_eq]
    exact ht.content?_remove area k k'
  refine ⟨h.healthy.congr (t.deleteSlot_sameTiers area k) rfl, fun k' => ?_, fun k' bytes hbytes => ?_,
    h.owned.without k⟩
  · show (t.order.remove k).weight? k' = _
    rw [Recency.weight?_remove, hcontent]
    split
    · rfl
    · exact h.weights k'
  · rw [hcontent] at hbytes
    split at hbytes
    · cases hbytes
    · exact h.encoded k' bytes hbytes

theorem Filed.write (h : t.Filed codec area) (ht : t.Sound) (k : K) {v : V} {bytes : List UInt8}
    (hencode : codec.encode v = .ok bytes) (stamps : Timestamps) :
    (t.withWritten k bytes.length stamps).Filed codec (t.write area k bytes stamps).area := by
  have haccepts := h.healthy.accepts
  have hcontent := ht.content?_write k bytes stamps haccepts
  rw [ht.write_tier haccepts] at hcontent
  refine ⟨h.healthy.congr (t.write_sameTiers area k bytes stamps) rfl, fun k' => ?_,
    fun k' content hfile => ?_, h.owned.write ht haccepts k bytes stamps⟩
  · show (t.listed k bytes.length).1.weight? k' = _
    rw [ht.weight?_listed, hcontent]
    split
    · rfl
    · split
      · rfl
      · exact h.weights k'
  · rw [hcontent] at hfile
    split at hfile
    · cases hfile
    · split at hfile
      · rw [← Option.some.inj hfile]
        exact ⟨v, hencode⟩
      · exact h.encoded k' content hfile

theorem Filed.isSome_content? (h : t.Filed codec area) (ht : t.Sound) {k : K}
    (hk : t.contains k = true) : ∃ bytes, t.content? area k = some bytes := by
  cases hcontent : t.content? area k with
  | some bytes => exact ⟨bytes, rfl⟩
  | none =>
    have hweight := h.weights k
    rw [hcontent, Option.map_none, ht.weight?_eq_none_iff, hk] at hweight
    cases hweight

/-! ## What the directory looks like -/

/-- The directory `d` holds the entries of the tier: one file for each of them and nothing else, with
numbers that differ and that no later file gets. Each file is the encoding of the value that was stored
last under the key of the entry, and the sizes of the files add up to the size of the tier. -/
structure LiesIn (codec : Codec V) (stored : K → Option (Shared V)) (t : DiskTier K)
    (d : TierDirectory) : Prop where
  files : d.files.keys.Perm (t.slots.values.map fun slot => fileName slot.fileId)
  distinct : (t.slots.values.map DiskSlot.fileId).Nodup
  fresh : ∀ slot ∈ t.slots.values, slot.fileId < t.nextFileId
  contents : ∀ k slot, t.slots.get? k = some slot → ∃ value bytes, stored k = some value ∧
    codec.encode value.value = .ok bytes ∧ d.files.get? (fileName slot.fileId) = some bytes
  size : t.sizeBytes = (d.files.values.map List.length).sum

theorem DistinctFiles.nodup_fileIds (h : t.DistinctFiles) :
    (t.slots.values.map DiskSlot.fileId).Nodup := by
  rw [Table.values, List.map_map]
  refine (List.Nodup.of_map _ t.slots.nodup_keys).map_on ?_
  rintro ⟨k, slot⟩ hk ⟨k', slot'⟩ hk' hsame
  rw [Table.mem_entries] at hk hk'
  obtain rfl := h k k' slot slot' hk hk' hsame
  rw [Option.some.inj (hk.symm.trans hk')]

variable {d : TierDirectory} {place : TierPlace}

theorem content?_of_directory (hplace : t.place = some place)
    (hd : area.tiers.get? place.number = some d) (k : K) :
    t.content? area k = (t.slots.get? k).bind fun slot => d.files.get? (fileName slot.fileId) := by
  unfold content? FileArea.read
  rw [hplace]
  simp only [Option.bind_some, hd]

theorem Filed.files_perm (h : t.Filed codec area) (ht : t.Sound) (hplace : t.place = some place)
    (hd : area.tiers.get? place.number = some d) :
    d.files.keys.Perm (t.slots.values.map fun slot => fileName slot.fileId) := by
  have hread (name : String) : area.read place.number name = d.files.get? name := by
    rw [FileArea.read, hd, Option.bind_some]
  have hnames : (t.slots.values.map fun slot => fileName slot.fileId).Nodup := by
    have hmapped := ht.distinct.nodup_fileIds.map fileName_injective
    rwa [List.map_map] at hmapped
  refine Table.keys_perm hnames fun name => ?_
  rw [List.mem_map]
  constructor
  · intro hname
    obtain ⟨bytes, hbytes⟩ := Table.get?_of_contains hname
    obtain ⟨k, slot, hslot, hfile⟩ := h.owned place name bytes hplace ((hread name).trans hbytes)
    exact ⟨slot, (t.slots.mem_values slot).2 ⟨k, hslot⟩, hfile⟩
  · rintro ⟨slot, hslot, rfl⟩
    obtain ⟨k, hslot⟩ := (t.slots.mem_values slot).1 hslot
    obtain ⟨bytes, hbytes⟩ := h.isSome_content? ht (Table.contains_of_get? hslot)
    rw [content?_of_directory hplace hd, hslot, Option.bind_some] at hbytes
    exact Table.contains_of_get? hbytes

theorem Filed.sizes_perm (h : t.Filed codec area) (ht : t.Sound) (hplace : t.place = some place)
    (hd : area.tiers.get? place.number = some d) :
    (t.order.items.map Prod.snd).Perm (d.files.values.map List.length) := by
  have hslots : t.slots.keys.Perm t.order.keys := Table.keys_perm ht.order.nodup_keys ht.keys
  have hfile (e : K × DiskSlot) (he : e ∈ t.slots.entries) :
      t.order.weight? e.1 = (d.files.get? (fileName e.2.fileId)).map List.length := by
    rw [h.weights, content?_of_directory hplace hd, (t.slots.mem_entries e.1 e.2).1 he,
      Option.bind_some]
  rw [← List.map_perm_map_iff (Option.some_injective Nat), ht.order.map_some_weights]
  calc (t.order.keys.map t.order.weight?).Perm (t.slots.keys.map t.order.weight?) :=
        (hslots.map _).symm
    _ = (t.slots.values.map fun slot => fileName slot.fileId).map
          fun name => (d.files.get? name).map List.length := by
        rw [Table.keys, Table.values, List.map_map, List.map_map, List.map_map]
        exact List.map_congr_left hfile
    (List.Perm _ (d.files.keys.map fun name => (d.files.get? name).map List.length)) :=
        ((h.files_perm ht hplace hd).map _).symm
    _ = (d.files.keys.map d.files.get?).map (Option.map List.length) := by
        rw [List.map_map]
        rfl
    _ = (d.files.values.map List.length).map some := by
        rw [← d.files.map_some_values, List.map_map, List.map_map]
        rfl

theorem Filed.liesIn (h : t.Filed codec area) (ht : t.Sound) (hcodec : codec.Faithful)
    (hplace : t.place = some place) (hd : area.tiers.get? place.number = some d)
    {stored : K → Option (Shared V)}
    (hstored : ∀ k bytes v, t.content? area k = some bytes → codec.read bytes = .ok v →
      ∃ value, stored k = some value ∧ value.value = v) : t.LiesIn codec stored d where
  files := h.files_perm ht hplace hd
  distinct := ht.distinct.nodup_fileIds
  fresh slot hslot := by
    obtain ⟨k, hslot⟩ := (t.slots.mem_values slot).1 hslot
    exact ht.fresh k slot hslot
  contents k slot hslot := by
    obtain ⟨bytes, hbytes⟩ := h.isSome_content? ht (Table.contains_of_get? hslot)
    obtain ⟨v, hencode⟩ := h.encoded k bytes hbytes
    obtain ⟨value, hvalue, rfl⟩ := hstored k bytes v hbytes (hcodec v bytes hencode)
    rw [content?_of_directory hplace hd, hslot, Option.bind_some] at hbytes
    exact ⟨value, bytes, hvalue, hencode, hbytes⟩
  size := by
    rw [sizeBytes, ht.order.total_eq]
    exact (h.sizes_perm ht hplace hd).sum_nat

end CacheLayer.DiskTier
