import CacheLayer.Proofs.Overflow.Directory
import CacheLayer.Proofs.Overflow.Shown
import CacheLayer.Proofs.SideBySide

/-!
# The directory mirrors the disk tier

Whatever is done to a cache over disk, its directory holds the files of the entries on disk and nothing
else, as long as the cache is open and others leave the directory alone. Closing the cache deletes the
directory, and what is done to the cache afterwards leaves the file area as it is. Both are properties
of the tier that last through whatever a cache does with it, which is little.

* `DiskTier.Steady` : what lasts while a cache does with its tier as it does.
* `Over.perform` : so it lasts through every operation but closing.
* `DiskTier.steady_filed`, `DiskTier.steady_closed` : the two properties that do.
* `directory_run` : what becomes of the directory in a run.
-/

namespace CacheLayer

variable {K : Type u} {V : Type v} [DecidableEq K]

/-! ## What a cache does with its tier -/

/-- A property of a tier in the file area that lasts while entries are written and leave. -/
structure DiskTier.Steady (codec : Codec V) (P : DiskTier K → FileArea → Prop) : Prop where
  without : ∀ {t : DiskTier K} {area : FileArea} (k : K), t.Sound → P t area →
    P (t.without k) (t.deleteSlot area k).2
  /-- The file of an entry turns out to be missing. -/
  lost : ∀ {t : DiskTier K} {area : FileArea} {k : K}, t.Sound → t.contains k = true →
    t.content? area k = none → P t area → P (t.without k) area
  /-- The next file cannot be written. -/
  refused : ∀ {t : DiskTier K} {area : FileArea}, t.accepts area = false → P t area →
    P { t with nextFileId := t.nextFileId + 1 } area
  written : ∀ {t : DiskTier K} {area : FileArea} {v : V} {bytes : List UInt8} (k : K)
    (stamps : Timestamps), t.Sound → t.accepts area = true → codec.encode v = .ok bytes → P t area →
    P (t.withWritten k bytes.length stamps) (t.write area k bytes stamps).area

namespace Overflow

variable {P : DiskTier K → FileArea → Prop} {c c' : Overflow K V} {w : World} {area : FileArea}
  {k : K} {s : Step (Overflow K V) (Eviction K V) Unit}

/-- The cache has a disk tier of that property. -/
def Over (P : DiskTier K → FileArea → Prop) (c : Overflow K V) (area : FileArea) : Prop :=
  ∃ t, c.disk = some t ∧ P t area

omit [DecidableEq K] in
theorem Over.of_disk (h : c.Over P area) (hdisk : c'.disk = c.disk) : c'.Over P area := by
  obtain ⟨t, ht, hP⟩ := h
  exact ⟨t, hdisk.trans ht, hP⟩

omit [DecidableEq K] in
theorem Over.tier (h : c.Over P area) {t : DiskTier K} (hdisk : c.disk = some t) : P t area := by
  obtain ⟨t', ht', hP⟩ := h
  rwa [Option.some.inj (hdisk.symm.trans ht')]

theorem Over.spilled (h : c.Over P w.area) (hP : DiskTier.Steady c.settings.codec P) (hc : c.Tidy)
    {e : Entry V} (hs : Spilled c w k e s) : s.state.Over P s.world.area := by
  cases hs with
  | expired x hx => exact h.of_disk rfl
  | dropped hlive hdisk => exact h.of_disk rfl
  | unencodable hlive t hdisk fault hencode => exact h.of_disk rfl
  | refused hlive t hdisk bytes hencode haccepts =>
    have ht := hc.disk t hdisk
    have harea : (t.write w.area k bytes e.stamps).area = (t.deleteSlot w.area k).2 := by
      rcases ht.write_cases w.area k bytes e.stamps with ⟨-, hwrite⟩ | ⟨_, _, haccepts', -, -, -⟩
      · rw [hwrite]
        exact ht.remove_area_eq w.area k
      · rw [haccepts'] at haccepts
        cases haccepts
    have hremoved : (t.without k).accepts (t.deleteSlot w.area k).2 = false :=
      (DiskTier.accepts_congr (t.deleteSlot_sameTiers w.area k) rfl rfl).trans haccepts
    exact ⟨_, rfl, harea ▸ hP.refused hremoved (hP.without k ht (h.tier hdisk))⟩
  | written hlive t hdisk bytes hencode haccepts =>
    exact ⟨_, rfl, hP.written k e.stamps (hc.disk t hdisk) haccepts hencode (h.tier hdisk)⟩

theorem Over.sink (h : c.Over P w.area) (hP : DiskTier.Steady c.settings.codec P) (hc : c.Sound)
    (hs : Sink c w s) : s.state.Over P s.world.area := by
  cases hs with
  | @evict k weight rest e hpop hget =>
    have htidy := hc.toTidy.dropMemory k
    have hleft : (c.dropMemory k).Over P w.area := h.of_disk rfl
    exact hleft.spilled hP htidy (htidy.spilled w k e)
  | @expireMemory k e x hget hx =>
    rw [Overflow.expireMemory, hget]
    exact h.of_disk rfl
  | @expireDisk t k x hdisk hx =>
    have ht := hc.disk t hdisk
    refine ⟨t.without k, congrArg some (ht.remove_tier w.area k), ?_⟩
    show P _ (t.remove w.area k).area
    rw [ht.remove_area_eq]
    exact hP.without k ht (h.tier hdisk)
  | @lose t k taken hdisk hlive htake hlost =>
    have ht := hc.disk t hdisk
    rcases DiskTier.take_cases htake with ⟨hcontent, rfl⟩ | ⟨bytes, stamps, -, -, rfl⟩
    · exact ⟨_, rfl, hP.lost ht (DiskTier.contains_of_take htake) hcontent (h.tier hdisk)⟩
    · exact ⟨_, rfl, hP.without k ht (h.tier hdisk)⟩

theorem Over.sinks (h : c.Over P w.area) (hP : DiskTier.Steady c.settings.codec P) (hc : c.Sound)
    (hs : Sinks c w s) : s.state.Over P s.world.area := by
  have hkept := hs.keepOfSound
    (P := fun c' w => c'.settings = c.settings ∧ c'.Over P w.area)
    (fun c' w s hs hc' h => by
      refine ⟨(hs.sameSetup hc').settings.trans h.1, h.2.sink ?_ hc' hs⟩
      rwa [h.1]) hc ⟨rfl, h⟩
  exact hkept.2

theorem Over.cleared (h : c.Over P w.area) (hP : DiskTier.Steady c.settings.codec P) (hc : c.Sound)
    (k : K) : ((c.dropMemory k).dropDisk k).Over P (c.clearedWorld w k).area := by
  obtain ⟨t, hdisk, htier⟩ := h
  have hdropped : ((c.dropMemory k).dropDisk k).disk = some (t.without k) := by
    show c.disk.map _ = _
    rw [hdisk]
    rfl
  rw [clearedWorld_of_disk hdisk, (hc.disk t hdisk).remove_area_eq]
  exact ⟨_, hdropped, hP.without k (hc.disk t hdisk) htier⟩

theorem Over.insert (h : c.Over P w.area) (hP : DiskTier.Steady c.settings.codec P) (hc : c.Sound)
    (k : K) (value : Shared V) :
    (c.insert w k value).state.Over P (c.insert w k value).world.area := by
  have hfront := (hc.dropBoth k).atFront (c.freshEntry w value)
  have hcleared : (((c.dropMemory k).dropDisk k).atFront k (c.freshEntry w value)).Over P
      (c.clearedWorld w k).area := (h.cleared hP hc k).of_disk rfl
  have htaken := hcleared.sinks hP hfront (takeIn_sinks hfront (c.clearedWorld w k))
  rw [hc.insert_eq]
  exact htaken.of_disk rfl

theorem Over.found (h : c.Over P w.area) (hP : DiskTier.Steady c.settings.codec P) (hc : c.Sound)
    {s : Step (Overflow K V) (Eviction K V) (Option (Shared V))} (hs : Found c w k s) :
    s.state.Over P s.world.area := by
  cases hs with
  | absent hmemory hdisk => exact h
  | gone hs => exact h.sink hP hc hs.sink
  | hit hget hlive => exact h.of_disk rfl
  | @promoted t bytes stamps v hmemory hdisk hstamps hlive hcontent hread =>
    have hfront := (lifted_vacant hc hmemory hdisk).atFront
      ⟨⟨w.nextId, v⟩, c.weigh v, c.touched w stamps⟩
    have hlifted : ((c.lifted t k).atFront k ⟨⟨w.nextId, v⟩, c.weigh v, c.touched w stamps⟩).Over P
        (t.deleteSlot w.area k).2 := ⟨_, rfl, hP.without k (hc.disk t hdisk) (h.tier hdisk)⟩
    exact Over.sinks (w := (World.share { w with area := (t.deleteSlot w.area k).2 } v).2) hlifted hP
      hfront (takeIn_sinks hfront _)

theorem Over.remove (h : c.Over P w.area) (hP : DiskTier.Steady c.settings.codec P) (hc : c.Sound)
    (k : K) : (c.remove w k).state.Over P (c.remove w k).world.area := by
  rw [hc.remove_state, hc.remove_world]
  exact (h.cleared hP hc k).of_disk rfl

/-- What is steady lasts through every operation, as long as the cache is not closed and others do
nothing. -/
theorem Over.perform (h : c.Over P w.area) (hP : DiskTier.Steady c.settings.codec P) (hc : c.Sound)
    {op : Op K V} (hopen : op ≠ .close) (hown : ∀ change, op ≠ .outside change) :
    (c.perform w op).state.Over P (c.perform w op).world.area := by
  cases op with
  | request r =>
    cases r with
    | insert k value => exact h.insert hP hc k value
    | remove k => exact h.remove hP hc k
    | get k => exact (h.found hP hc (find_found c w k)).of_disk rfl
    | contains k => exact h
    | keys => exact h.sinks hP hc (purgeExpired_sinks hc w)
    | size => exact h.sinks hP hc (purgeExpired_sinks hc w)
  | purgeExpired => exact h.sinks hP hc (purgeExpired_sinks hc w)
  | close => exact absurd rfl hopen
  | outside change => exact absurd rfl (hown change)

end Overflow

/-! ## Open and closed tiers -/

namespace DiskTier

variable {codec : Codec V} {t : DiskTier K} {area area' : FileArea} {number : Nat}

theorem steady_filed (codec : Codec V) (number : Nat) :
    Steady codec fun (t : DiskTier K) area => t.number? = some number ∧ t.Filed codec area where
  without k ht h := ⟨h.1, h.2.without ht k⟩
  lost ht hk hcontent h := by
    obtain ⟨bytes, hbytes⟩ := h.2.isSome_content? ht hk
    rw [hcontent] at hbytes
    cases hbytes
  refused haccepts h := by
    rw [h.2.healthy.accepts] at haccepts
    cases haccepts
  written k stamps ht _ hencode h := ⟨h.1, h.2.write ht k hencode stamps⟩

theorem deleteSlot_area_closed (h : t.place = none) (area : FileArea) (k : K) :
    (t.deleteSlot area k).2 = area := by
  unfold deleteSlot
  split
  · rfl
  · dsimp only
    rw [h]

/-- A closed tier touches no file. -/
theorem steady_closed (codec : Codec V) (before : FileArea) :
    Steady codec fun (t : DiskTier K) area => t.place = none ∧ area = before where
  without k _ h := ⟨h.1, (deleteSlot_area_closed h.1 _ k).trans h.2⟩
  lost _ _ _ h := h
  refused _ h := h
  written k stamps _ haccepts _ h := by
    rw [accepts, h.1] at haccepts
    cases haccepts

theorem Filed.congr (h : t.Filed codec area) (hnumber : t.number? = some number)
    (htier : area'.tiers.get? number = area.tiers.get? number)
    (hunwritable : area'.unwritable number = area.unwritable number) : t.Filed codec area' := by
  have hcontent (k : K) : t.content? area' k = t.content? area k := by
    refine content?_congr (fun n hn => ?_) k
    obtain rfl := Option.some.inj (hnumber.symm.trans hn)
    exact htier
  obtain ⟨place, hplace, hhas, hwritable⟩ := h.healthy
  obtain rfl : place.number = number := by
    rw [number?, hplace] at hnumber
    exact Option.some.inj hnumber
  refine ⟨⟨place, hplace, ?_, fun name => ?_⟩, fun k => ?_, fun k bytes hbytes => ?_,
    fun place' name bytes hplace' hread => ?_⟩
  · rw [FileArea.hasTier, Table.contains, htier]
    exact hhas
  · rw [hunwritable]
    exact hwritable name
  · rw [hcontent]
    exact h.weights k
  · rw [hcontent] at hbytes
    exact h.encoded k bytes hbytes
  · obtain rfl := Option.some.inj (hplace.symm.trans hplace')
    rw [FileArea.read, htier] at hread
    exact h.owned place name bytes hplace hread

end DiskTier

/-! ## Runs -/

namespace Overflow

variable {c : Overflow K V} {w : World} {number : Nat} {stored : K → Option (Shared V)}

/-- Others leave the directory of that number alone, and it can be written to as before. -/
def Op.Spares (number : Nat) : Op K V → Prop
  | .outside change => ∀ area, (change area).tiers.get? number = area.tiers.get? number ∧
      (change area).unwritable number = area.unwritable number
  | _ => True

def lastStored (turns : List (Turn K V)) : K → Option (Shared V) :=
  turns.foldl (fun stored turn => turn.op.storing stored) fun _ => none

/-- The directory of that number holds the entries on disk, with the values stored last. -/
structure InStep (number : Nat) (stored : K → Option (Shared V)) (c : Overflow K V)
    (area : FileArea) : Prop where
  sound : c.Sound
  filed : c.Over (fun t area => t.number? = some number ∧ t.Filed c.settings.codec area) area
  recalls : c.Recalls area stored

theorem InStep.perform (h : InStep number stored c w.area) (hcodec : c.settings.codec.Faithful)
    {op : Op K V} (hop : op.Spares number) (hopen : op ≠ .close) :
    InStep number (op.storing stored) (c.perform w op).state (c.perform w op).world.area := by
  have hsettings := (h.sound.sameSetup_perform w op).settings
  refine ⟨h.sound.perform w op, ?_, ?_⟩
  · rw [hsettings]
    cases op with
    | outside change =>
      obtain ⟨t, hdisk, hnumber, hfiled⟩ := h.filed
      obtain ⟨htier, hunwritable⟩ := hop w.area
      exact ⟨t, hdisk, hnumber, hfiled.congr hnumber htier hunwritable⟩
    | _ => exact h.filed.perform (DiskTier.steady_filed _ number) h.sound hopen nofun
  · cases op with
    | outside change =>
      obtain ⟨t, hdisk, hnumber, -⟩ := h.filed
      have hcontent (k : K) : t.content? (change w.area) k = t.content? w.area k :=
        DiskTier.content?_congr (fun n hn => by
          obtain rfl := Option.some.inj (hnumber.symm.trans hn)
          exact (hop w.area).1) k
      intro k stamps v hcopy
      refine h.recalls k stamps v (hcopy.mono rfl (fun _ he => he) fun t' ht' => ⟨t', ht', ?_⟩)
      obtain rfl := Option.some.inj (hdisk.symm.trans ht')
      exact fun stamps' bytes hstamps hbytes => ⟨hstamps, (hcontent k).symm.trans hbytes⟩
    | _ => exact h.recalls.perform h.sound hcodec.truthful _ nofun

theorem InStep.run (turns : List (Turn K V)) (h : InStep number stored c w.area)
    (hcodec : c.settings.codec.Faithful)
    (hturns : ∀ turn ∈ turns, turn.op.Spares number ∧ turn.op ≠ .close) :
    InStep number (turns.foldl (fun stored turn => turn.op.storing stored) stored)
      (c.run w turns).state (c.run w turns).world.area := by
  induction turns generalizing c w stored with
  | nil => exact h
  | cons turn turns ih =>
    obtain ⟨hop, hopen⟩ := hturns turn (by simp)
    have hfirst := InStep.perform (w := w.advance turn.wait) h hcodec hop hopen
    refine ih hfirst ?_ fun later hlater => hturns later (by simp [hlater])
    rwa [(h.sound.sameSetup_perform (w.advance turn.wait) turn.op).settings]

theorem area_perform_of_closed (hc : c.Sound) (h : c.Over (fun t _ => t.place = none) w.area)
    {op : Op K V} (hown : ∀ change, op ≠ .outside change) :
    (c.perform w op).state.Over (fun t _ => t.place = none) (c.perform w op).world.area ∧
      (c.perform w op).world.area = w.area := by
  obtain ⟨t, hdisk, hplace⟩ := h
  have hbefore : c.Over (fun t area => t.place = none ∧ area = w.area) w.area :=
    ⟨t, hdisk, hplace, rfl⟩
  by_cases hopen : op = .close
  · subst hopen
    refine ⟨⟨⟨none, .empty, .empty, t.bound, t.nextFileId⟩, ?_, rfl⟩, ?_⟩
    · show (c.close w).state.disk = _
      rw [close_state, hdisk]
      rfl
    · show (c.close w).world.area = _
      unfold close
      simp only [hdisk, DiskTier.close, hplace]
      rfl
  · obtain ⟨t', hdisk', hplace', harea⟩ :=
      hbefore.perform (DiskTier.steady_closed c.settings.codec w.area) hc hopen hown
    exact ⟨⟨t', hdisk', hplace'⟩, harea⟩

/-- The cache is closed and its directory is gone. -/
structure Shut (number : Nat) (c : Overflow K V) (area : FileArea) : Prop where
  sound : c.Sound
  closed : c.Over (fun t _ => t.place = none) area
  gone : area.tiers.get? number = none

theorem InStep.close (h : InStep number stored c w.area) :
    Shut number (c.close w).state (c.close w).world.area := by
  obtain ⟨t, hdisk, hnumber, -⟩ := h.filed
  refine ⟨sound_close c w, ⟨⟨none, .empty, .empty, t.bound, t.nextFileId⟩, ?_, rfl⟩, ?_⟩
  · rw [close_state, hdisk]
    rfl
  · rw [tiers_close, number?, hdisk, Option.bind_some, if_pos hnumber]

theorem Shut.perform (h : Shut number c w.area) {op : Op K V} (hop : op.Spares number) :
    Shut number (c.perform w op).state (c.perform w op).world.area := by
  by_cases hown : ∀ change, op ≠ .outside change
  · obtain ⟨hclosed, harea⟩ := area_perform_of_closed h.sound h.closed hown
    exact ⟨h.sound.perform w op, hclosed, harea ▸ h.gone⟩
  · obtain ⟨change, rfl⟩ := not_forall_not.1 hown
    obtain ⟨t, hdisk, hplace⟩ := h.closed
    exact ⟨h.sound, ⟨t, hdisk, hplace⟩, (hop w.area).1.trans h.gone⟩

theorem Shut.run (turns : List (Turn K V)) (h : Shut number c w.area)
    (hturns : ∀ turn ∈ turns, turn.op.Spares number) :
    Shut number (c.run w turns).state (c.run w turns).world.area := by
  induction turns generalizing c w with
  | nil => exact h
  | cons turn turns ih =>
    exact ih (Shut.perform (w := w.advance turn.wait) h (hturns turn (by simp)))
      fun later hlater => hturns later (by simp [hlater])

theorem InStep.shut_run (turns : List (Turn K V)) (h : InStep number stored c w.area)
    (hcodec : c.settings.codec.Faithful) (hturns : ∀ turn ∈ turns, turn.op.Spares number)
    (hclosed : ∃ turn ∈ turns, turn.op = .close) :
    Shut number (c.run w turns).state (c.run w turns).world.area := by
  induction turns generalizing c w stored with
  | nil =>
    obtain ⟨turn, hturn, -⟩ := hclosed
    cases hturn
  | cons turn turns ih =>
    have hlater : ∀ later ∈ turns, later.op.Spares number := fun later hlater =>
      hturns later (by simp [hlater])
    by_cases hopen : turn.op = .close
    · have hshut : Shut number (c.perform (w.advance turn.wait) turn.op).state
          (c.perform (w.advance turn.wait) turn.op).world.area := by
        rw [hopen]
        exact InStep.close (w := w.advance turn.wait) h
      exact hshut.run turns hlater
    · have hfirst := InStep.perform (w := w.advance turn.wait) h hcodec (hturns turn (by simp)) hopen
      refine ih hfirst ?_ hlater ?_
      · rwa [(h.sound.sameSetup_perform (w.advance turn.wait) turn.op).settings]
      · obtain ⟨later, hmem, hclose⟩ := hclosed
        rcases List.mem_cons.1 hmem with rfl | hmem
        · exact absurd hclose hopen
        · exact ⟨later, hmem, hclose⟩

theorem inStep_of_built {b : Builder} {st : Storage K V} {w w' : World} {c : Overflow K V}
    (hbuilt : b.buildOverflow st w = (.ok c, w'))
    (hpersistence : b.config.persistence = .swapOnOverflow)
    (hwritable : ∀ number, c.number? = some number → ∀ name, w'.area.unwritable number name = false) :
    ∃ number, c.number? = some number ∧ InStep number (fun _ => none) c w'.area := by
  have hstart := Builder.built hbuilt
  refine ⟨w.area.nextTier, ?_⟩
  rcases Builder.buildOverflow_cases hbuilt with ⟨hnone, -, -⟩ | ⟨-, t, area, hopen, rfl, rfl⟩
  · rw [hpersistence] at hnone
    cases hnone
  · have hopened := DiskTier.opened (K := K) w.area (Path.ofText b.directory) b.name
      b.config.diskBound
    rw [hopen] at hopened
    cases hopened with
    | made hpath =>
      refine ⟨rfl, hstart.sound, ⟨_, rfl, rfl, ?_⟩, fun k stamps v hcopy =>
        (not_copy_of_vacant rfl rfl hcopy).elim⟩
      refine ⟨⟨_, rfl, by simp [FileArea.hasTier], fun name => ?_⟩, fun k => rfl, nofun,
        fun place name bytes hplace hread => ?_⟩
      · exact hwritable _ rfl name
      · obtain rfl := Option.some.inj hplace
        simp [FileArea.read] at hread

/-- As long as a cache over disk is open, its directory holds one file for each entry on disk and
nothing else, with the encoding of the value that was stored last under the key. Once the cache was
closed the directory is gone, and whatever is done to the cache then touches no file. -/
theorem directory_run (b : Builder) (st : Storage K V) {w w' : World} {c : Overflow K V}
    (hbuilt : b.buildOverflow st w = (.ok c, w'))
    (hpersistence : b.config.persistence = .swapOnOverflow) (hcodec : st.codec.Faithful)
    (hwritable : ∀ number, c.number? = some number → ∀ name, w'.area.unwritable number name = false)
    (turns : List (Turn K V))
    (hturns : ∀ number, c.number? = some number → ∀ turn ∈ turns, turn.op.Spares number) :
    ∃ number, c.number? = some number ∧
      ((∀ turn ∈ turns, turn.op ≠ .close) →
        ∃ t d, (c.run w' turns).state.disk = some t ∧ t.number? = some number ∧
          (c.run w' turns).world.area.tiers.get? number = some d ∧
          t.LiesIn st.codec (lastStored turns) d) ∧
      ((∃ turn ∈ turns, turn.op = .close) →
        (c.run w' turns).state.place = none ∧
        (c.run w' turns).world.area.tiers.get? number = none ∧
        ∀ next : Turn K V, (∀ change, next.op ≠ .outside change) →
          ((c.run w' turns).state.perform ((c.run w' turns).world.advance next.wait) next.op).world.area
            = (c.run w' turns).world.area) := by
  obtain ⟨number, hnumber, hstart⟩ := inStep_of_built hbuilt hpersistence hwritable
  have hfaithful : c.settings.codec.Faithful := by
    rw [(Builder.built hbuilt).setup.1]
    exact hcodec
  have hsettings := (sameSetup_run (w := w') turns hstart.sound).settings.trans
    (Builder.built hbuilt).setup.1
  refine ⟨number, hnumber, fun hopen => ?_, fun hclosed => ?_⟩
  · obtain ⟨hsound, ⟨t, hdisk, htier, hfiled⟩, hrecalls⟩ := hstart.run turns hfaithful
      fun turn hturn => ⟨hturns number hnumber turn hturn, hopen turn hturn⟩
    rw [hsettings] at hfiled
    obtain ⟨place, hplace, hhas, -⟩ := hfiled.healthy
    obtain ⟨d, hd⟩ := Table.get?_of_contains hhas
    obtain rfl : place.number = number := by
      rw [DiskTier.number?, hplace] at htier
      exact Option.some.inj htier
    refine ⟨t, d, hdisk, htier, hd, hfiled.liesIn (hsound.disk t hdisk) hcodec hplace hd ?_⟩
    intro k bytes v hcontent hread
    obtain ⟨slot, hslot, -⟩ := Option.bind_eq_some_iff.1 hcontent
    have hstamps : t.stamps? k = some slot.stamps := congrArg (Option.map _) hslot
    refine hrecalls k slot.stamps v (.onDisk hdisk hstamps hcontent ?_)
    rw [hsettings]
    exact hread
  · have hshut := hstart.shut_run turns hfaithful (hturns number hnumber) hclosed
    refine ⟨?_, hshut.gone, fun next hown => ?_⟩
    · obtain ⟨t, hdisk, hplace⟩ := hshut.closed
      rw [place, hdisk]
      exact hplace
    · exact (area_perform_of_closed (w := (c.run w' turns).world.advance next.wait) hshut.sound
        hshut.closed hown).2

/-- An entry is spilled and comes back from disk, which spills the other one; then the cache is
closed. -/
theorem directory_run_pair :
    let turns : List (Turn Nat UInt8) :=
      [⟨0, .request (.insert 1 ⟨0, 7⟩)⟩, ⟨0, .request (.insert 2 ⟨1, 8⟩)⟩, ⟨0, .request (.get 1)⟩]
    let out := (pairCache none none).run pairWorld turns
    let closed := (pairCache none none).run pairWorld (turns ++ [⟨0, .close⟩])
    (∃ t d, out.state.disk = some t ∧ t.number? = some 0 ∧ out.world.area.tiers.get? 0 = some d ∧
      t.LiesIn byteStorage.codec (lastStored turns) d) ∧
    closed.world.area.tiers.get? 0 = none := by
  intro turns out closed
  have hrun (turns : List (Turn Nat UInt8)) (hturns : ∀ turn ∈ turns, turn.op.Spares 0) :=
    directory_run (pairBuilder none none) byteStorage (pair_built none none) rfl
      faithful_byteStorage (fun _ _ _ => rfl) turns fun number hnumber => by
        obtain rfl : 0 = number := Option.some.inj hnumber
        exact hturns
  obtain ⟨number, hnumber, hopen, -⟩ := hrun turns (by simp [turns, Op.Spares])
  obtain ⟨number', hnumber', -, hclosed⟩ := hrun (turns ++ [⟨0, .close⟩]) (by simp [turns, Op.Spares])
  obtain rfl : 0 = number := Option.some.inj hnumber
  obtain rfl : 0 = number' := Option.some.inj hnumber'
  exact ⟨hopen (by simp [turns]), (hclosed ⟨⟨0, .close⟩, by simp, rfl⟩).2.1⟩

end Overflow

end CacheLayer
