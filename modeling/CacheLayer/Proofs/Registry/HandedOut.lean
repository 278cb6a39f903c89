import CacheLayer.Proofs.Registry.Directories

/-!
# What a registry hands out

A registry hands out the cache that is registered under a name, or one that it just made. The cache may
have been closed meanwhile, but only by somebody who had a handle: the name of a cache that the registry
closes goes with it. So a cache that swaps to disk is handed out with its directory, unless somebody
closed it through a handle; then the name still stands for the closed cache, which never gets a directory
again.

* `Overflow.spills_of_open` : over a directory that is there, entries that overflow go to disk.
* `History.Unstruck` : no name stands for a cache that the registry closed; `Unstruck.move`.
* `History.handed?` : what a deed hands out; `History.bound_of_handed`.
* `History.handed_out_run` : which caches over disk are handed out with their directories.
* `History.handed_out_closed` : one that was closed is handed out and drops what overflows.
-/

namespace CacheLayer

variable {K : Type u} {V : Type v} {T : Type w}

/-! ## Overflowing over a directory -/

section Spilling

variable [DecidableEq K]

theorem DiskTier.accepts_remove (t : DiskTier K) (area : FileArea) (k : K) :
    (t.remove area k).tier.accepts (t.remove area k).area = t.accepts area := by
  have hnext : (t.remove area k).tier.nextFileId = t.nextFileId := by
    unfold remove
    split
    · rfl
    · show ({ t with order := t.order.remove k }.deleteSlot area k).1.nextFileId = _
      rw [deleteSlot_tier]
  exact accepts_congr (t.remove_sameTiers area k) (t.ownFiles_remove area k).place hnext

theorem DiskTier.isSome_write (t : DiskTier K) (area : FileArea) (k : K) (bytes : List UInt8)
    (stamps : Timestamps) : (t.write area k bytes stamps).answer.isSome = t.accepts area := by
  rw [← t.accepts_remove area k, accepts_eq_isSome _ _ bytes]
  unfold write
  dsimp only
  split
  · rename_i hfailed
    rw [hfailed]
    rfl
  · rename_i hwritten
    rw [hwritten]
    rfl

namespace Overflow

/-- Whatever live entry memory pushes out, it goes to disk, as long as it can be encoded and files can be
written. -/
def Spills (c : Overflow K V) (area : FileArea) : Prop :=
  ∀ (w : World) (k : K) (e : Entry V) (bytes : List UInt8), w.area = area →
    c.expiration w e = none → c.settings.codec.encode e.value.value = .ok bytes →
    (∀ number name, area.unwritable number name = false) →
      (c.spill w k e).state.metrics.spilledToDisk = c.metrics.spilledToDisk + 1 ∧
      (c.spill w k e).state.metrics.diskWriteFailures = c.metrics.diskWriteFailures

theorem spills_of_open {c : Overflow K V} {area : FileArea} {tier : Nat} (hopen : c.number? = some tier)
    (htier : area.hasTier tier = true) : c.Spills area := by
  rintro w k e bytes rfl hlive hencode hwritable
  obtain ⟨t, hdisk, hnumber⟩ := Option.bind_eq_some_iff.1 hopen
  obtain ⟨place, hplace, rfl⟩ := Option.map_eq_some_iff.1 hnumber
  have hwritten : (t.write w.area k bytes e.stamps).answer.isSome = true := by
    rw [DiskTier.isSome_write, DiskTier.accepts, hplace]
    simp only [htier, hwritable, Bool.not_false, Bool.and_self]
  obtain ⟨victims, hvictims⟩ := Option.isSome_iff_exists.1 hwritten
  unfold spill
  simp only [hlive, hdisk, hencode, Timestamps.snapshot_eq, hvictims]
  exact ⟨rfl, rfl⟩

end Overflow

/-- The cache of a number uses a private directory, which is there. -/
def Session.Lodged (s : Session K V T) (n : Nat) : Prop :=
  ∃ tier, s.lodging? n = some tier ∧ s.world.area.hasTier tier = true

/-- The cache of a number is over disk, and what overflows goes there. -/
def Session.Spills (s : Session K V T) (n : Nat) : Prop :=
  ∃ c o, s.alive.get? n = some c ∧ c.store.backend = .overflow o ∧ o.Spills s.world.area

theorem Session.Lodged.spills {s : Session K V T} {n : Nat} (h : s.Lodged n) : s.Spills n := by
  obtain ⟨tier, hn, htier⟩ := h
  obtain ⟨c, hget, hnumber⟩ := get?_of_lodging? hn
  have hopen : c.store.backend.number? = some tier := hnumber
  cases hbackend : c.store.backend with
  | overflow o =>
    rw [hbackend] at hopen
    exact ⟨c, o, hget, hbackend, Overflow.spills_of_open hopen htier⟩
  | _ =>
    rw [hbackend] at hopen
    cases hopen

/-- Closing a list over a cache is closing the cache, which others may have a handle of. -/
theorem Session.on_closing_list {V' : Type v'} {s : Session Nat V T} (n : Nat) (held : List Nat)
    (proxy : Proxy V' V) :
    ((s.on n held fun c w =>
      ((⟨c, proxy⟩ : ReadWriteList V' V).close w).mapState ReadWriteList.cache).map Prod.snd) =
        s.work n held .close := by
  unfold work on
  cases s.alive.get? n <;> rfl

end Spilling

namespace History

/-! ## Names and closed caches -/

section Names

variable {h h' : History K V T}

/-- No name stands for a cache that the registry closed. -/
def Unstruck (h : History K V T) : Prop :=
  ∀ name entry, h.session.binding? name = some entry → entry.number ∉ h.struck

theorem unstruck_start (r : Registry T) (w : World) : (start r w : History K V T).Unstruck :=
  fun _ _ _ => nofun

variable [DecidableEq K] [DecidableEq T] {before : FileArea}

theorem Unstruck.move (hu : h.Unstruck) (htied : h.session.Tied) (hh : h.Housed before)
    (hmove : Move h h') : h'.Unstruck := by
  cases hmove with
  | refers hnames hhandles => exact fun name entry hbound => hu name entry (hnames name entry hbound)
  | drops hdrops =>
    intro name entry hbound
    exact hu name entry ((hdrops.binding? name).symm.trans hbound)
  | @enrols r tag name o c w hr ho hfounded hhoused =>
    intro name' entry hbound
    rw [Session.binding?_enrolled hr] at hbound
    split at hbound
    · -- the number of the new cache was not given out before
      obtain rfl := Option.some.inj hbound
      exact fun hstruck =>
        Nat.lt_irrefl _ (hh.past h.session.nextNumber (List.mem_append_right _ hstruck))
    · exact hu name' entry hbound
  | @strikes r name entry c hr hbound hget =>
    intro name' entry' hbound'
    rw [Session.binding?_struck hr] at hbound'
    split at hbound'
    · cases hbound'
    · rename_i hother
      rw [List.mem_append, List.mem_singleton]
      rintro (hstruck | hsame)
      · exact hu name' entry' hbound' hstruck
      · exact hother (htied.apart _ _ _ _ hbound' hbound hsame)
  | _ => exact hu

end Names

/-! ## Handing out -/

section Handing

variable [DecidableEq T] {h : History K V T} {storage : T → Storage K V} {n : Nat}

def handed? (storage : T → Storage K V) (h : History K V T) : Deed K V T → Option Nat
  | .call (.get tag name _) _ => h.session.registry.bind fun r => (r.find tag name).toOption.join
  | .acquire tag name plan _ =>
    h.session.registry.bind fun r => (plan.recipe? h.drafts).bind fun recipe =>
      (h.session.acquire r storage tag name recipe).1.found.toOption
  | _ => none

theorem bound_of_handed [DecidableEq K] {deed : Deed K V T} (hn : h.handed? storage deed = some n) :
    ∃ name entry, (h.step storage deed).session.binding? name = some entry ∧ entry.number = n := by
  cases deed with
  | call c hc =>
    cases c with
    | get tag name slot =>
      obtain ⟨r, hr, hfound⟩ := Option.bind_eq_some_iff.1 hn
      obtain ⟨entry, hbound, hnumber⟩ := Registry.bound_of_find hfound
      refine ⟨name, entry, ?_, hnumber⟩
      show (h.session.withRegistry _).binding? name = some entry
      rw [Session.withRegistry, hr, Option.map_some, Option.getD_some, Session.binding?_settle]
      exact (Session.binding?_of_registry hr name).trans hbound
    | _ => cases hn
  | acquire tag name plan slot =>
    obtain ⟨r, hr, hasked⟩ := Option.bind_eq_some_iff.1 hn
    obtain ⟨recipe, hrecipe, hfound⟩ := Option.bind_eq_some_iff.1 hasked
    obtain ⟨entry, hbound, hnumber⟩ := Session.bound_of_acquire hr hfound
    refine ⟨name, entry, ?_, hnumber⟩
    show (((plan.recipe? h.drafts).map _).getD h.session).binding? name = some entry
    rw [hrecipe, Option.map_some, Option.getD_some]
    show (h.session.withRegistry _).binding? name = some entry
    rw [Session.withRegistry, hr, Option.map_some, Option.getD_some, Session.binding?_settle]
    exact hbound
  | _ => cases hn

end Handing

/-! ## Runs -/

section Runs

variable [DecidableEq K] {h : History K V T} {before : FileArea} {n : Nat} {o : Origin}

omit [DecidableEq K] in
theorem Housed.lodged (hh : h.Housed before) (hn : h.session.alive.contains n = true)
    (ho : h.origins n = some o) (hswaps : o.Swaps) (hopen : n ∉ h.closed) : h.session.Lodged n := by
  obtain ⟨o', ho', hlodged⟩ := hh.known n hn
  obtain rfl := Option.some.inj (ho.symm.trans ho')
  obtain ⟨tier, htier⟩ := Option.isSome_iff_exists.1 (hlodged.2 ⟨hswaps, hopen⟩)
  obtain ⟨-, o', -, hplaced⟩ := hh.placed n tier htier
  obtain ⟨d, hd, -⟩ := Option.map_eq_some_iff.1 hplaced
  exact ⟨tier, htier, Table.contains_of_get? hd⟩

variable [DecidableEq T]

theorem run_concat (storage : T → Storage K V) (h : History K V T)
    (deeds : List (Deed K V T)) (deed : Deed K V T) :
    h.run storage (deeds ++ [deed]) = (h.run storage deeds).step storage deed := List.foldl_concat ..

theorem unstruck_run (storage : T → Storage K V) (config : Option RegistryConfig) (w : World)
    (deeds : List (Deed K V T)) : ((start (Registry.opened config) w).run storage deeds).Unstruck := by
  obtain ⟨-, -, hunstruck⟩ := holds_run (P := fun h => h.Housed w.area ∧ h.Unstruck) storage config w
    deeds ⟨housed_start _ w, unstruck_start _ w⟩
    fun htied hP hmove => ⟨hP.1.move htied hmove, hP.2.move htied hP.1 hmove⟩
  exact hunstruck

/-- Whatever was done before, a cache that a registry hands out is alive and was not closed by the
registry. If it swaps to disk and nobody closed it through a handle, it has its directory, and what
overflows goes there. If somebody did, it has none, and it never gets one again. -/
theorem handed_out_run (storage : T → Storage K V) (config : Option RegistryConfig) (w : World)
    (deeds : List (Deed K V T)) (deed : Deed K V T) (n : Nat)
    (hhanded : ((start (Registry.opened config) w).run storage deeds).handed? storage deed = some n) :
    let h := ((start (Registry.opened config) w).run storage deeds).step storage deed
    h.session.alive.contains n = true ∧ n ∉ h.struck ∧ ∃ o, h.origins n = some o ∧
      (o.Swaps → n ∉ h.shut → h.session.Lodged n ∧ h.session.Spills n) ∧
      (n ∈ h.shut → ∀ later, (h.run storage later).session.lodging? n = none) := by
  intro h
  obtain ⟨name, entry, hbound, rfl⟩ := bound_of_handed hhanded
  have hrun : h = (start (Registry.opened config) w).run storage (deeds ++ [deed]) :=
    (run_concat ..).symm
  obtain ⟨hsound, hhoused⟩ := housed_run storage config w (deeds ++ [deed])
  have hunstruck := unstruck_run storage config w (deeds ++ [deed])
  rw [← hrun] at hsound hhoused hunstruck
  have halive := hsound.known name entry hbound
  have hopen : entry.number ∉ h.struck := hunstruck name entry hbound
  obtain ⟨o, ho, hlodged⟩ := hhoused.known entry.number halive
  refine ⟨halive, hopen, o, ho, fun hswaps hshut => ?_, fun hshut later => ?_⟩
  · have hunclosed : entry.number ∉ h.closed := by
      rw [closed, List.mem_append]
      exact not_or.2 ⟨hshut, hopen⟩
    have hlodges := hhoused.lodged halive ho hswaps hunclosed
    exact ⟨hlodges, hlodges.spills⟩
  · have hnone : h.session.lodging? entry.number = none := by
      refine Option.not_isSome_iff_eq_none.1 fun hsome => ?_
      exact (hlodged.1 hsome).2 (List.mem_append_left _ hshut)
    have hstays := (moves_run storage later hsound).1.stays
    rcases hstays.lodging entry.number (hsound.fresh _ halive) with hsame | hgone
    · exact hsame.trans hnone
    · exact hgone

end Runs

/-! ## The smallest cache over disk, handed out -/

def askPair : Deed Nat UInt8 Unit := .acquire () "pair" (.plain pairConfig) (some "x")

/-- The history of a registry that made that cache. -/
def pairHistory : History Nat UInt8 Unit :=
  let r := Registry.opened (some pairRegistry)
  let s : Session Nat UInt8 Unit := .start r bareWorld
  { (start r bareWorld : History Nat UInt8 Unit) with
    session := (s.enrolled r () "pair" (.plain (.overflow (pairCache none none))) pairWorld).settle ()
      (some "x") (some 0)
    origins := Function.update (fun _ => none) 0 (some ⟨pairConfig, "d"⟩) }

theorem pair_asked (deeds : List (Deed Nat UInt8 Unit)) :
    (start (Registry.opened (some pairRegistry)) bareWorld).run (fun _ => byteStorage)
      (askPair :: deeds) = pairHistory.run (fun _ => byteStorage) deeds :=
  congrArg (run (fun _ => byteStorage) · deeds)
    (step_acquire_of_making (fun _ => byteStorage) (some "x") rfl rfl rfl rfl pair_made)

theorem handed_out_run_pair :
    let made : History Nat UInt8 Unit :=
      (start (Registry.opened (some pairRegistry)) bareWorld).run (fun _ => byteStorage) [askPair]
    let asking : Deed Nat UInt8 Unit := .call (.get () "pair" none) trivial
    made.handed? (fun _ => byteStorage) asking = some 0 ∧
      (made.step (fun _ => byteStorage) asking).session.Lodged 0 ∧
      (made.step (fun _ => byteStorage) asking).session.Spills 0 := by
  intro made asking
  have hmade : made = pairHistory := pair_asked []
  have hhanded : made.handed? (fun _ => byteStorage) asking = some 0 := by
    rw [hmade]
    rfl
  obtain ⟨-, -, o, ho, hspills, -⟩ :=
    handed_out_run (fun _ => byteStorage) (some pairRegistry) bareWorld [askPair] asking 0 hhanded
  have horigin : (made.step (fun _ => byteStorage) asking).origins 0 = some ⟨pairConfig, "d"⟩ := by
    rw [hmade]
    rfl
  have hshut : (made.step (fun _ => byteStorage) asking).shut = [] := by
    rw [hmade]
    rfl
  obtain rfl := Option.some.inj (ho.symm.trans horigin)
  refine ⟨hhanded, hspills ⟨rfl, rfl⟩ ?_⟩
  rw [hshut]
  exact nofun

/-- A cache that swaps to disk is made and closed through its handle. Both ways of asking hand it out
again, and the second of two entries put into it drops the first, as a failure to write. -/
theorem handed_out_closed :
    let closed : History Nat UInt8 Unit :=
      (start (Registry.opened (some pairRegistry)) bareWorld).run (fun _ => byteStorage)
        [askPair, .call (.use () "x" [] .close) trivial]
    let putting (k : Nat) (v : UInt8) : Deed Nat UInt8 Unit :=
      .call (.use () "x" [] (.put k (some v))) trivial
    let used := closed.run (fun _ => byteStorage) [askPair, putting 1 7, putting 2 8]
    closed.handed? (fun _ => byteStorage) (.call (.get () "pair" none) trivial) = some 0 ∧
      closed.handed? (fun _ => byteStorage) askPair = some 0 ∧
      (∃ o, closed.origins 0 = some o ∧ o.Swaps) ∧
      (closed.step (fun _ => byteStorage) askPair).session.lodging? 0 = none ∧
      ((used.session.alive.get? 0).bind Cache.metrics).map
        (fun m => (m.inserts, m.spilledToDisk, m.diskWriteFailures)) = some (2, 0, 1) ∧
      (used.session.alive.get? 0).map (fun c => c.contains used.session.world 1) = some false := by
  intro closed putting used
  have hclosed : closed = _ := pair_asked [.call (.use () "x" [] .close) trivial]
  have hused : used = closed.run (fun _ => byteStorage) [askPair, putting 1 7, putting 2 8] := rfl
  rw [hused, hclosed]
  exact ⟨rfl, rfl, ⟨_, rfl, rfl, rfl⟩, rfl, rfl, rfl⟩

end History

end CacheLayer
