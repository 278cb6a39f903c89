import CacheLayer.Overflow.Basic
import CacheLayer.Proofs.FileArea

/-!
# Each tier keeps to its directory

Whatever a two-tier cache does, the private directories other than its own stay as they are, none is
made, and the cache goes on using its own, in its place, until it is closed.

* `FileArea.OnlyIn` : a change in one private directory alone; `FileArea.WorksIn` : a change of its files
  alone.
* `FileArea.Keeps`, `FileArea.Uses` : such changes by whoever uses the directory, with and without
  keeping it.
* `Overflow.OwnFiles` : a change by a cache that keeps its directory, with one lemma for each operation
  but closing; `Overflow.uses_close`.
-/

namespace CacheLayer

/-- The private directories other than `own` are the same. -/
structure FileArea.OnlyIn (own : Option Nat) (a a' : FileArea) : Prop where
  nextTier : a'.nextTier = a.nextTier
  tiers : ∀ number, own ≠ some number → a'.tiers.get? number = a.tiers.get? number

/-- Moreover `own`, if it exists, still does and lies where it lay. -/
structure FileArea.WorksIn (own : Option Nat) (a a' : FileArea) : Prop extends OnlyIn own a a' where
  places : ∀ number, (a'.tiers.get? number).map TierDirectory.parent =
    (a.tiers.get? number).map TierDirectory.parent

namespace FileArea

variable {own own' own'' : Option Nat} {a a' a'' : FileArea}

theorem OnlyIn.refl (own : Option Nat) (a : FileArea) : OnlyIn own a a := ⟨rfl, fun _ _ => rfl⟩

theorem OnlyIn.trans (h : OnlyIn own a a') (h' : OnlyIn own a' a'') : OnlyIn own a a'' :=
  ⟨h'.nextTier.trans h.nextTier, fun n hn => (h'.tiers n hn).trans (h.tiers n hn)⟩

namespace WorksIn

theorem refl (own : Option Nat) (a : FileArea) : WorksIn own a a := ⟨.refl own a, fun _ => rfl⟩

theorem trans (h : WorksIn own a a') (h' : WorksIn own a' a'') : WorksIn own a a'' :=
  ⟨h.toOnlyIn.trans h'.toOnlyIn, fun n => (h'.places n).trans (h.places n)⟩

theorem delete (a : FileArea) (number : Nat) (name : String) :
    WorksIn (some number) a (a.delete number name) := by
  refine ⟨⟨rfl, fun n hn => ?_⟩, fun n => ?_⟩
  · show (a.tiers.modify number _).get? n = _
    rw [Table.get?_modify, if_neg fun heq => hn (congrArg some heq.symm)]
  · show ((a.tiers.modify number _).get? n).map _ = _
    rw [Table.get?_modify]
    split
    · rename_i hn
      rw [hn, Option.map_map]
      rfl
    · rfl

theorem write {number : Nat} {name : String} {bytes : List UInt8}
    (h : a.write number name bytes = some a') : WorksIn (some number) a a' := by
  obtain ⟨d, hd, rfl⟩ := FileArea.write_eq_some h
  refine ⟨⟨rfl, fun n hn => ?_⟩, fun n => ?_⟩
  · show (a.tiers.insert number _).get? n = _
    rw [Table.get?_insert, if_neg fun heq => hn (congrArg some heq.symm)]
  · show ((a.tiers.insert number _).get? n).map _ = _
    rw [Table.get?_insert]
    split
    · rename_i hn
      rw [hn, hd]
      rfl
    · rfl

end WorksIn

/-- Whoever uses the directory `own`, if any, goes on using it, until it is deleted and `own'` is none;
the areas differ there alone. -/
structure Uses (a : FileArea) (own own' : Option Nat) (a' : FileArea) : Prop where
  number : own' = own ∨ own' = none
  only : a.OnlyIn own a'

/-- Whoever uses the directory `own`, if any, goes on using it; the areas differ in its files alone. -/
structure Keeps (a : FileArea) (own own' : Option Nat) (a' : FileArea) : Prop where
  number : own' = own
  works : a.WorksIn own a'

theorem Keeps.refl (a : FileArea) (own : Option Nat) : a.Keeps own own a := ⟨rfl, .refl own a⟩

theorem Keeps.trans (h : a.Keeps own own' a') (h' : a'.Keeps own' own'' a'') :
    a.Keeps own own'' a'' := by
  obtain ⟨rfl, hworks⟩ := h
  exact ⟨h'.number, hworks.trans h'.works⟩

theorem Keeps.uses (h : a.Keeps own own' a') : a.Uses own own' a' :=
  ⟨.inl h.number, h.works.toOnlyIn⟩

end FileArea

variable {K : Type u} {V : Type v}

/-! ## The disk tier -/

namespace DiskTier

def number? (t : DiskTier K) : Option Nat := t.place.map TierPlace.number

/-- A tier stays in its place, and the areas differ in its files alone. -/
structure OwnFiles (t : DiskTier K) (a : FileArea) (t' : DiskTier K) (a' : FileArea) : Prop where
  place : t'.place = t.place
  works : a.WorksIn t.number? a'

variable {t t' t'' : DiskTier K} {a a' a'' : FileArea}

theorem OwnFiles.refl (a : FileArea) (hplace : t'.place = t.place) : OwnFiles t a t' a :=
  ⟨hplace, .refl _ a⟩

theorem OwnFiles.trans (h : OwnFiles t a t' a') (h' : OwnFiles t' a' t'' a'') :
    OwnFiles t a t'' a'' := by
  refine ⟨h'.place.trans h.place, h.works.trans ?_⟩
  have hsame : t'.number? = t.number? := congrArg (Option.map _) h.place
  exact hsame ▸ h'.works

variable [DecidableEq K]

theorem ownFiles_deleteSlot (t : DiskTier K) (a : FileArea) (k : K) :
    OwnFiles t a (t.deleteSlot a k).1 (t.deleteSlot a k).2 := by
  unfold deleteSlot
  split
  · exact .refl a rfl
  · rename_i slot _
    refine ⟨rfl, ?_⟩
    unfold number?
    dsimp only
    split
    · rename_i place hplace
      rw [hplace]
      exact .delete a place.number _
    · exact .refl _ a

theorem ownFiles_remove (t : DiskTier K) (a : FileArea) (k : K) :
    OwnFiles t a (t.remove a k).tier (t.remove a k).area := by
  unfold remove
  split
  · exact .refl a rfl
  · have hunlisted : OwnFiles t a { t with order := t.order.remove k } a := .refl a rfl
    exact hunlisted.trans (ownFiles_deleteSlot { t with order := t.order.remove k } a k)

theorem ownFiles_deleteSlots (ks : List K) (t : DiskTier K) (a : FileArea) :
    OwnFiles t a (t.deleteSlots a ks).1 (t.deleteSlots a ks).2 := by
  induction ks generalizing t a with
  | nil => exact .refl a rfl
  | cons k ks ih => exact (ownFiles_deleteSlot t a k).trans (ih _ _)

theorem ownFiles_write (t : DiskTier K) (a : FileArea) (k : K) (bytes : List UInt8)
    (stamps : Timestamps) :
    OwnFiles t a (t.write a k bytes stamps).tier (t.write a k bytes stamps).area := by
  have hremoved := ownFiles_remove t a k
  unfold write
  dsimp only
  split
  · exact hremoved.trans (.refl _ rfl)
  · rename_i written hwrite
    obtain ⟨place, hplace, hwritten⟩ := Option.bind_eq_some_iff.1 hwrite
    have hnumber : t.number? = some place.number := by
      rw [number?, ← hremoved.place]
      exact congrArg (Option.map _) hplace
    have hstored (t' : DiskTier K) (victims : List K) (hplace' : t'.place = (t.remove a k).tier.place) :
        OwnFiles t a (t'.deleteSlots written victims).1 (t'.deleteSlots written victims).2 := by
      have hwrites : OwnFiles t a t' written :=
        ⟨hplace'.trans hremoved.place, hremoved.works.trans (hnumber ▸ .write hwritten)⟩
      exact hwrites.trans (ownFiles_deleteSlots victims t' written)
    exact hstored _ _ rfl

theorem ownFiles_take {k : K} {taken : Change K (Option (List UInt8 × Timestamps))}
    (h : t.take a k = some taken) : OwnFiles t a taken.tier taken.area := by
  obtain ⟨slot, -, rfl⟩ := Option.map_eq_some_iff.1 h
  dsimp only
  split
  · exact .refl a rfl
  · rename_i place hplace
    split
    · exact .refl a rfl
    · refine ⟨rfl, ?_⟩
      unfold number?
      rw [hplace]
      exact .delete a place.number _

end DiskTier

/-! ## The cache -/

namespace Overflow

def number? (c : Overflow K V) : Option Nat := c.disk.bind DiskTier.number?

def OwnFiles (c : Overflow K V) (a : FileArea) (c' : Overflow K V) (a' : FileArea) : Prop :=
  a.Keeps c.number? c'.number? a'

variable {c c' c'' : Overflow K V} {a a' a'' : FileArea}

theorem OwnFiles.refl (a : FileArea) (hdisk : c'.disk = c.disk) : OwnFiles c a c' a :=
  ⟨congrArg (Option.bind · DiskTier.number?) hdisk, .refl _ a⟩

theorem OwnFiles.of_disk {t t' : DiskTier K} (hdisk : c.disk = some t) (hdisk' : c'.disk = some t')
    (h : t.OwnFiles a t' a') : OwnFiles c a c' a' := by
  have hnumber : c.number? = t.number? := congrArg (Option.bind · DiskTier.number?) hdisk
  have hnumber' : c'.number? = t'.number? := congrArg (Option.bind · DiskTier.number?) hdisk'
  refine ⟨?_, hnumber ▸ h.works⟩
  rw [hnumber, hnumber']
  exact congrArg (Option.map TierPlace.number) h.place

theorem OwnFiles.trans (h : OwnFiles c a c' a') (h' : OwnFiles c' a' c'' a'') :
    OwnFiles c a c'' a'' := FileArea.Keeps.trans h h'

variable [DecidableEq K]

theorem ownFiles_spill (c : Overflow K V) (w : World) (k : K) (e : Entry V) :
    OwnFiles c w.area (c.spill w k e).state (c.spill w k e).world.area := by
  unfold spill
  dsimp only
  split
  · exact .refl _ rfl
  · split
    · exact .refl _ rfl
    · rename_i t hdisk
      split
      · exact .refl _ hdisk.symm
      · rename_i bytes _
        have hwritten := t.ownFiles_write w.area k bytes e.stamps
        split
        · exact .of_disk hdisk rfl hwritten
        · exact .of_disk hdisk rfl hwritten

theorem ownFiles_spillAll (ks : List K) (c : Overflow K V) (w : World) :
    OwnFiles c w.area (c.spillAll w ks).state (c.spillAll w ks).world.area := by
  induction ks generalizing c w with
  | nil => exact .refl _ rfl
  | cons k ks ih =>
    rw [spillAll]
    split
    · exact ih c w
    · rename_i e _
      have hleft : OwnFiles c w.area { c with entries := c.entries.erase k } w.area := .refl _ rfl
      exact (hleft.trans (ownFiles_spill _ w k e)).trans (ih _ _)

theorem ownFiles_takeIn (c : Overflow K V) (w : World) (k : K) (e : Entry V) :
    OwnFiles c w.area (c.takeIn w k e).state (c.takeIn w k e).world.area := by
  have hspilled (c' : Overflow K V) (ks : List K) (hdisk : c'.disk = c.disk) :
      OwnFiles c w.area (c'.spillAll w ks).state (c'.spillAll w ks).world.area :=
    (OwnFiles.refl w.area hdisk).trans (ownFiles_spillAll ks c' w)
  exact hspilled _ _ rfl

theorem ownFiles_expireMemory (c : Overflow K V) (w : World) (k : K) :
    OwnFiles c w.area (c.expireMemory w k).state (c.expireMemory w k).world.area := by
  unfold expireMemory
  split <;> exact .refl _ rfl

theorem ownFiles_expireDisk {c : Overflow K V} {t : DiskTier K} (hdisk : c.disk = some t)
    (w : World) (k : K) (x : Expiration) :
    OwnFiles c w.area (c.expireDisk w t k x).state (c.expireDisk w t k x).world.area :=
  .of_disk hdisk rfl (t.ownFiles_remove w.area k)

theorem ownFiles_promote (c : Overflow K V) (w : World) (k : K) :
    OwnFiles c w.area (c.promote w k).state (c.promote w k).world.area := by
  unfold promote
  split
  · exact .refl _ rfl
  · rename_i t hdisk
    split
    · rename_i x _
      exact ownFiles_expireDisk hdisk w k x
    · split
      · exact .refl _ rfl
      · rename_i taken htake
        have htaken := DiskTier.ownFiles_take htake
        dsimp only
        split
        · exact .of_disk hdisk rfl htaken
        · split
          · exact .of_disk hdisk rfl htaken
          · have hread (c' : Overflow K V) (w' : World) (e : Entry V)
                (hdisk' : c'.disk = some taken.tier) (harea : w'.area = taken.area) :
                OwnFiles c w.area (c'.takeIn w' k e).state (c'.takeIn w' k e).world.area := by
              have hlifted : OwnFiles c w.area c' w'.area := harea ▸ .of_disk hdisk hdisk' htaken
              exact hlifted.trans (ownFiles_takeIn c' w' k e)
            exact hread _ _ _ rfl rfl

theorem ownFiles_get (c : Overflow K V) (w : World) (k : K) :
    OwnFiles c w.area (c.get w k).state (c.get w k).world.area := by
  have hfound : OwnFiles c w.area (c.find w k).state (c.find w k).world.area := by
    unfold find
    split
    · exact ownFiles_promote c w k
    · split
      · exact ownFiles_expireMemory c w k
      · exact .refl _ rfl
  exact hfound.trans (.refl _ rfl)

theorem ownFiles_insert (c : Overflow K V) (w : World) (k : K) (value : Shared V) :
    OwnFiles c w.area (c.insert w k value).state (c.insert w k value).world.area := by
  unfold insert
  dsimp only
  split
  · rename_i hdisk
    have hcleared : OwnFiles c w.area
        { c with entries := c.entries.erase k, order := c.order.remove k } w.area := .refl _ rfl
    exact (hcleared.trans (ownFiles_takeIn _ w k _)).trans (.refl _ rfl)
  · rename_i t hdisk
    have hcleared : OwnFiles c w.area
        { c with
          entries := c.entries.erase k, order := c.order.remove k
          disk := some (t.remove w.area k).tier } (t.remove w.area k).area :=
      .of_disk hdisk rfl (t.ownFiles_remove w.area k)
    exact (hcleared.trans (ownFiles_takeIn _ { w with area := (t.remove w.area k).area } k _)).trans
      (.refl _ rfl)

theorem ownFiles_remove (c : Overflow K V) (w : World) (k : K) :
    OwnFiles c w.area (c.remove w k).state (c.remove w k).world.area := by
  unfold remove
  dsimp only
  split
  · split <;> exact .refl _ rfl
  · split
    · exact .refl _ rfl
    · rename_i t hdisk
      have hremoved := t.ownFiles_remove w.area k
      split
      · exact .of_disk hdisk rfl hremoved
      · exact .of_disk hdisk rfl hremoved

theorem ownFiles_expireAllMemory (ks : List K) (c : Overflow K V) (w : World) :
    OwnFiles c w.area (c.expireAllMemory w ks).state (c.expireAllMemory w ks).world.area := by
  induction ks generalizing c w with
  | nil => exact .refl _ rfl
  | cons k ks ih => exact (ownFiles_expireMemory c w k).trans (ih _ _)

theorem ownFiles_expireAllDisk (expired : List (K × Expiration)) (c : Overflow K V) (w : World) :
    OwnFiles c w.area (c.expireAllDisk w expired).state (c.expireAllDisk w expired).world.area := by
  induction expired generalizing c w with
  | nil => exact .refl _ rfl
  | cons e expired ih =>
    rw [expireAllDisk]
    split
    · exact .refl _ rfl
    · rename_i t hdisk
      exact (ownFiles_expireDisk hdisk w e.1 e.2).trans (ih _ _)

theorem ownFiles_purgeExpired (c : Overflow K V) (w : World) :
    OwnFiles c w.area (c.purgeExpired w).state (c.purgeExpired w).world.area := by
  unfold purgeExpired
  split
  · exact .refl _ rfl
  · dsimp only
    generalize c.entries.entries.filterMap _ = expired
    have hmemory := ownFiles_expireAllMemory expired c w
    unfold Step.bind
    dsimp only
    split
    · exact hmemory.trans (.refl _ rfl)
    · exact hmemory.trans (ownFiles_expireAllDisk _ _ _)

omit [DecidableEq K] in
theorem tiers_close (c : Overflow K V) (w : World) (number : Nat) :
    (c.close w).world.area.tiers.get? number =
      if c.number? = some number then none else w.area.tiers.get? number := by
  unfold close number?
  dsimp only
  split
  · rename_i hdisk
    rw [hdisk]
    exact (if_neg fun h => by cases h).symm
  · rename_i t hdisk
    rw [hdisk, Option.bind_some]
    unfold DiskTier.number? DiskTier.close
    dsimp only [Step.pure]
    cases t.place with
    | none => exact (if_neg fun h => by cases h).symm
    | some place =>
      show (w.area.tiers.erase place.number).get? number = _
      rw [Table.get?_erase, Option.map_some]
      exact ite_congr ((Option.some.injEq _ _).trans (propext eq_comm)).symm (fun _ => rfl)
        fun _ => rfl

omit [DecidableEq K] in
@[simp] theorem number?_close (c : Overflow K V) (w : World) : (c.close w).state.number? = none := by
  unfold close number?
  dsimp only
  split
  · rename_i hdisk
    exact congrArg (Option.bind · DiskTier.number?) hdisk
  · rfl

omit [DecidableEq K] in
theorem uses_close (c : Overflow K V) (w : World) :
    w.area.Uses c.number? (c.close w).state.number? (c.close w).world.area := by
  have hnextTier : (c.close w).world.area.nextTier = w.area.nextTier := by
    unfold close
    dsimp only
    split
    · rfl
    · rename_i t _
      unfold DiskTier.close
      cases t.place <;> rfl
  exact ⟨.inr (c.number?_close w), hnextTier,
    fun number hn => (c.tiers_close w number).trans (if_neg hn)⟩

end Overflow

end CacheLayer
