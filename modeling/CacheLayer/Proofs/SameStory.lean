import CacheLayer.Proofs.Overflow.Events
import CacheLayer.Proofs.Overflow.Ledger
import CacheLayer.Proofs.Overflow.Shown
import CacheLayer.Proofs.Soft.Events
import CacheLayer.Proofs.Volatile.Events

/-!
# Events and counters tell the same story

Of every kind of cache that stores: whatever is done to it, and whatever becomes of the world around it
in between, the clock, the objects that others hold and the files, the listener is told as often
as is counted, and where it is shown a value, that is the one stored last under its key.

* `Turn`, `run` : a run in which the world may become any other between two operations.
* `SameStory` : how events and counters agree.
* `Stores.tell_perform`, `Stores.tell_run` : an operation, and so a run, counts what it tells.
* `Recalls.shown` : an operation shows what was stored last.
* `same_story` : so it is after every run of a cache that was built.
-/

namespace CacheLayer

variable {K : Type u} {V : Type v}

/-- How the events and the counters of a cache agree, after so many look-ups. -/
structure SameStory (m : Metrics) (events : List (Eviction K V)) (lookups : Nat) : Prop where
  removed : toldFor .removed events = m.removals
  expired : toldFor .expired events = m.evictedByTtl + m.evictedByTti
  reclaimed : toldFor .reclaimed events = m.reclaimed
  crowded : toldFor .capacity events + toldFor .overflow events =
    m.evictedByCapacity + m.diskWriteFailures
  lookedUp : m.hits + m.misses = lookups
  diskHits : m.diskHits ≤ m.hits
  spilled : m.diskHits ≤ m.spilledToDisk

theorem Books.Tell.sameStory {now : Nat} {b : Books} {events : List (Eviction K V)} {lookups : Nat}
    (h : Tell ⟨.startedAt now, 0⟩ b events lookups) : SameStory b.metrics events lookups := by
  obtain ⟨hremoved, hexpired, hreclaimed, hcrowded, hlookedUp, hdiskHits, hdrained⟩ := h
  simp only [Metrics.startedAt] at hremoved hexpired hreclaimed hcrowded hlookedUp hdiskHits hdrained
  constructor <;> omega

namespace Backend

/-! ## Runs -/

/-- The world may become another one, and something is done to the cache. -/
structure Turn (K : Type u) (V : Type v) where
  change : World → World
  op : Op K V

def Op.lookups : Op K V → Nat
  | .request r => r.lookups
  | _ => 0

def lookups (turns : List (Turn K V)) : Nat := (turns.map fun turn => turn.op.lookups).sum

variable [DecidableEq K]

def Op.storing (stored : K → Option (Shared V)) : Op K V → K → Option (Shared V)
  | .request r => r.storing stored
  | _ => stored

def lastStored (turns : List (Turn K V)) : K → Option (Shared V) :=
  turns.foldl (fun stored turn => turn.op.storing stored) fun _ => none

/-- Takes a cache through what happens; the log is what the listener is told. -/
def run (c : Backend K V) (w : World) : List (Turn K V) → Step (Backend K V) (Eviction K V) Unit
  | [] => .pure () c w
  | turn :: turns => (c.perform (turn.change w) turn.op).bind fun _ c w => c.run w turns

/-! ## What is told is counted -/

def books : Backend K V → Books
  | overflow c => c.books
  | volatile c => c.books
  | soft c => c.books
  | absent _ => ⟨{}, 0⟩

/-- A cache that stores and is in order. -/
def Stores : Backend K V → Prop
  | overflow c => c.Sound
  | volatile c => c.Placed
  | soft c => c.Tied
  | absent _ => False

variable {c : Backend K V} {w : World} {op : Op K V}

theorem Stores.metrics (h : c.Stores) : c.metrics = some c.books.metrics := by
  cases c with
  | absent name => cases h
  | _ => rfl

omit [DecidableEq K] in
theorem lookups_overDisk (op : Op K V) : op.overDisk.lookups = op.lookups := by
  cases op <;> rfl

theorem perform_soft_request (c : Soft K V) (w : World) (r : MapRequest K (Shared V)) :
    (soft c).perform w (.request r) =
      ⟨(), soft (c.serve w r).cache, w, (c.serve w r).events⟩ := by
  cases r <;> rfl

theorem Stores.tell_perform (h : c.Stores) (w : World) (op : Op K V) :
    (c.perform w op).state.Stores ∧
      Books.Tell c.books (c.perform w op).state.books (c.perform w op).log op.lookups := by
  cases c with
  | overflow c =>
    have hc : c.Sound := h
    rw [perform_overflow, ← lookups_overDisk]
    exact ⟨hc.perform w op.overDisk, hc.tell_perform w op.overDisk⟩
  | volatile c =>
    have hc : c.Placed := h
    cases op with
    | request r =>
      cases r with
      | insert k value => exact ⟨hc.serve w.now (.insert k value), c.tell_insert w.now k value⟩
      | remove k => exact ⟨hc.remove w.now k, c.tell_remove w.now k⟩
      | get k => exact ⟨hc.get w.now k, c.tell_get w.now k⟩
      | _ => exact ⟨hc, .refl _⟩
    | purgeExpired => exact ⟨(c.purgeExpired_forgets w.now).placed hc, c.tell_sweepAll _ w.now⟩
    | close => exact ⟨hc.close, .refl _⟩
    | heap op => exact ⟨hc, .refl _⟩
  | soft c =>
    have hc : c.Tied := h
    cases op with
    | request r =>
      rw [perform_soft_request]
      exact ⟨hc.perform w (.request r), c.tell_perform w (.request r)⟩
    | purgeExpired => exact ⟨hc, .refl _⟩
    | close => exact ⟨hc.perform w .close, c.tell_perform w .close⟩
    | heap op => exact ⟨hc.perform w (.heap op), c.tell_perform w (.heap op)⟩
  | absent name => cases h

theorem Stores.tell_run (turns : List (Turn K V)) (h : c.Stores) (w : World) :
    (c.run w turns).state.Stores ∧
      Books.Tell c.books (c.run w turns).state.books (c.run w turns).log (lookups turns) := by
  induction turns generalizing c w with
  | nil => exact ⟨h, .refl _⟩
  | cons turn turns ih =>
    obtain ⟨hafter, hfirst⟩ := h.tell_perform (turn.change w) turn.op
    obtain ⟨hlast, hrest⟩ := ih hafter (c.perform (turn.change w) turn.op).world
    exact ⟨hlast, hfirst.trans hrest⟩

/-! ## What is shown was stored last -/

/-- What can be found in a cache was stored last. -/
def Recalls (codec : Codec V) (c : Backend K V) (area : FileArea) (stored : K → Option (Shared V)) :
    Prop :=
  match c with
  | overflow c => c.settings.codec = codec ∧ codec.Truthful ∧ c.Recalls area stored
  | volatile c => c.Recalls stored
  | soft c => c.Recalls stored
  | absent _ => True

/-- Of a cache over disk, nobody forges files in the meantime. -/
def Undisturbed (codec : Codec V) (c : Backend K V) (change : World → World) : Prop :=
  c.cacheType = .diskOverflow → ∀ w, codec.Unforged w.area (change w).area

variable {codec : Codec V} {stored : K → Option (Shared V)}

theorem cacheType_perform (c : Backend K V) (w : World) (op : Op K V) :
    (c.perform w op).state.cacheType = c.cacheType := by
  cases c with
  | overflow c => rw [perform_overflow]; rfl
  | _ =>
    cases op with
    | request r => cases r <;> rfl
    | _ => rfl

theorem Recalls.elsewhere {change : World → World} (h : c.Recalls codec w.area stored)
    (hchange : c.Undisturbed codec change) : c.Recalls codec (change w).area stored := by
  cases c with
  | overflow c =>
    obtain ⟨hsame, htruthful, hrecalls⟩ := h
    refine ⟨hsame, htruthful, fun k stamps v hcopy => hrecalls k stamps v (hcopy.of_unforged ?_)⟩
    rw [hsame]
    exact hchange rfl w
  | _ => exact h

theorem Recalls.perform (h : c.Recalls codec w.area stored) (hc : c.Stores) (op : Op K V) :
    (c.perform w op).state.Recalls codec (c.perform w op).world.area (op.storing stored) := by
  cases c with
  | overflow c =>
    have hc : c.Sound := hc
    obtain ⟨hsame, htruthful, hrecalls⟩ := h
    have hop : ∀ change, op.overDisk = .outside change →
        c.settings.codec.Unforged w.area (change w.area) := by
      intro change heq number name bytes v hfile hread
      cases op with
      | heap op =>
        cases heq
        exact ⟨bytes, hfile, hread⟩
      | _ => cases heq
    have hstoring : op.overDisk.storing stored = op.storing stored := by cases op <;> rfl
    have hafter := hrecalls.perform hc (hsame ▸ htruthful) op.overDisk hop
    rw [hstoring] at hafter
    rw [perform_overflow]
    refine ⟨?_, htruthful, hafter⟩
    exact (congrArg OverflowSettings.codec (hc.sameSetup_perform w op.overDisk).settings).trans hsame
  | volatile c =>
    have hc : c.Placed := hc
    have h : c.Recalls stored := h
    cases op with
    | request r =>
      cases r with
      | insert k value => exact h.insert hc
      | remove k => exact h.remove k
      | get k => exact h.get hc k
      | _ => exact h
    | purgeExpired => exact h.sweepAll _
    | close => exact fun k e he => by rw [Volatile.stored?_close] at he; cases he
    | heap op => exact h
  | soft c =>
    have h : c.Recalls stored := h
    cases op with
    | request r =>
      rw [perform_soft_request]
      exact h.perform w (.request r)
    | purgeExpired => exact h
    | close => exact h.perform w .close
    | heap op => exact h.perform w (.heap op)
  | absent name => cases hc

/-- What an operation shows was stored last, by that operation at the latest: it is equal to it, and
where nothing goes to disk it is the very object. -/
theorem Recalls.shown (h : c.Recalls codec w.area stored) (hc : c.Stores) {event : Eviction K V}
    {x : Shared V} (hevent : event ∈ (c.perform w op).log) (hx : event.value = some x) :
    ∃ y, op.storing stored event.key = some y ∧ x.value = y.value ∧
      (c.cacheType ≠ .diskOverflow → x = y) := by
  have hsame (hstored : op.storing stored event.key = some x) :
      ∃ y, op.storing stored event.key = some y ∧ x.value = y.value ∧
        (c.cacheType ≠ .diskOverflow → x = y) := ⟨x, hstored, rfl, fun _ => rfl⟩
  cases c with
  | overflow c =>
    have hc : c.Sound := hc
    obtain ⟨hcodec, htruthful, hrecalls⟩ := h
    have hstoring : op.overDisk.storing stored = op.storing stored := by cases op <;> rfl
    rw [perform_overflow] at hevent
    obtain ⟨y, hy, hvalue⟩ := hrecalls.shown hc (hcodec ▸ htruthful) hevent hx
    rw [hstoring] at hy
    exact ⟨y, hy, hvalue.symm, fun hne => (hne rfl).elim⟩
  | volatile c =>
    have hc : c.Placed := hc
    have h : c.Recalls stored := h
    cases op with
    | request r =>
      cases r with
      | insert k value => exact hsame (h.shown_insert hc hevent hx)
      | remove k => exact hsame (h.shown_remove hevent hx)
      | get k => exact hsame (h.shown_get hevent hx)
      | _ => cases hevent
    | purgeExpired => exact hsame (h.shown_sweepAll _ hc hevent hx)
    | close => cases hevent
    | heap op => cases hevent
  | soft c =>
    have hc : c.Tied := hc
    have h : c.Recalls stored := h
    cases op with
    | request r =>
      rw [perform_soft_request] at hevent
      have hevent : event ∈ (c.perform w (.request r)).events := hevent
      exact hsame (h.shown hc hevent hx)
    | purgeExpired => cases hevent
    | close => cases hevent
    | heap op => cases hevent
  | absent name => cases hc

theorem recalls_run (turns : List (Turn K V)) (hc : c.Stores)
    (hturns : ∀ turn ∈ turns, c.Undisturbed codec turn.change)
    (h : c.Recalls codec w.area stored) :
    (c.run w turns).state.Recalls codec (c.run w turns).world.area
        (turns.foldl (fun stored turn => turn.op.storing stored) stored) ∧
      (c.run w turns).state.cacheType = c.cacheType := by
  induction turns generalizing c w stored with
  | nil => exact ⟨h, rfl⟩
  | cons turn turns ih =>
    have hkind := c.cacheType_perform (turn.change w) turn.op
    have hfirst := (h.elsewhere (hturns turn (by simp))).perform hc turn.op
    obtain ⟨hrest, hkind'⟩ := ih (hc.tell_perform (turn.change w) turn.op).1
      (fun later hlater hdisk => hturns later (by simp [hlater]) (hkind.symm.trans hdisk)) hfirst
    exact ⟨hrest, hkind'.trans hkind⟩

/-! ## Caches that were built -/

theorem stores_of_built {b : Builder} {st : Storage K V} {w w' : World} {kind : CacheKind}
    (h : b.buildKind st w kind = (.ok c, w')) (hstores : c.cacheType ≠ .noOp) :
    c.Stores ∧ c.books = ⟨.startedAt w.now, 0⟩ ∧
      ((c.cacheType = .diskOverflow → st.codec.Truthful) →
        c.Recalls st.codec w'.area fun _ => none) := by
  cases made_of_buildKind h with
  | @overflow c w' hbuilt =>
    have hstart := Builder.built hbuilt
    refine ⟨hstart.sound, ?_, fun htruthful => ⟨?_, htruthful rfl, ?_⟩⟩
    · show (⟨c.metrics, c.diskSize⟩ : Books) = _
      rw [hstart.metrics_eq]
      cases hstart <;> rfl
    · rw [hstart.setup.1]
      rfl
    · intro k stamps v hcopy
      cases hstart with
      | memoryOnly hpersistence => exact (Overflow.not_copy_of_vacant rfl rfl hcopy).elim
      | overDisk hpersistence hplace hunwritable =>
        exact (Overflow.not_copy_of_vacant rfl rfl hcopy).elim
  | @volatile c hbuilt =>
    refine ⟨Volatile.placed_of_built hbuilt, ?_, fun _ => ?_⟩
    · rw [Volatile.eq_make_of_built hbuilt]
      rfl
    · rw [Volatile.eq_make_of_built hbuilt]
      intro k e he
      rw [Volatile.stored?, Volatile.shard_make] at he
      cases he
  | @soft c hbuilt =>
    refine ⟨Soft.tied_of_built hbuilt, ?_, fun _ => ?_⟩
    · rw [Soft.eq_make_of_built hbuilt]
      rfl
    · rw [Soft.eq_make_of_built hbuilt]
      exact nofun
  | absent => exact (hstores rfl).elim

/-- Whatever is done to a cache that was built and stores, and whatever becomes of the world in
between: after every run its counters agree with what the listener was told and with the number of
look-ups. What the listener is shown next was stored last under its key; of a cache over disk, if the
codec is truthful and nobody forges files. -/
theorem same_story (b : Builder) (st : Storage K V) {kind : CacheKind} {w w' : World}
    {c : Backend K V} (hbuilt : b.buildKind st w kind = (.ok c, w')) (hstores : c.cacheType ≠ .noOp)
    (turns : List (Turn K V)) :
    (∃ m, (c.run w' turns).state.metrics = some m ∧
      SameStory m (c.run w' turns).log (lookups turns)) ∧
    ∀ next : Turn K V,
      (c.cacheType = .diskOverflow → st.codec.Truthful ∧
        ∀ turn ∈ turns ++ [next], ∀ around, st.codec.Unforged around.area (turn.change around).area) →
      ∀ event ∈ ((c.run w' turns).state.perform (next.change (c.run w' turns).world) next.op).log,
        ∀ x, event.value = some x →
          ∃ y, lastStored (turns ++ [next]) event.key = some y ∧ x.value = y.value ∧
            (c.cacheType ≠ .diskOverflow → x = y) := by
  obtain ⟨hordered, hbooks, hrecalls⟩ := stores_of_built hbuilt hstores
  obtain ⟨hafter, htell⟩ := hordered.tell_run turns w'
  rw [hbooks] at htell
  refine ⟨⟨_, hafter.metrics, htell.sameStory⟩, fun next hcalm event hevent x hx => ?_⟩
  have hundisturbed : ∀ turn ∈ turns ++ [next], c.Undisturbed st.codec turn.change :=
    fun turn hturn hdisk => (hcalm hdisk).2 turn hturn
  obtain ⟨hrun, hkind⟩ := recalls_run turns hordered
    (fun turn hturn => hundisturbed turn (List.mem_append_left _ hturn))
    (hrecalls fun hdisk => (hcalm hdisk).1)
  have hnext : (c.run w' turns).state.Undisturbed st.codec next.change := fun hdisk =>
    hundisturbed next (by simp) (hkind.symm.trans hdisk)
  obtain ⟨y, hy, hvalue, hobject⟩ := (hrun.elsewhere hnext).shown hafter hevent hx
  rw [hkind] at hobject
  refine ⟨y, ?_, hvalue, hobject⟩
  rw [lastStored, List.foldl_append]
  exact hy

/-- Three entries are spilled, one is read back and one is lost with its file; then the one that was
read back cannot be written, and is shown. -/
theorem same_story_pair :
    let turns : List (Turn Nat UInt8) :=
      [⟨id, .request (.insert 1 ⟨0, 7⟩)⟩, ⟨id, .request (.insert 2 ⟨1, 8⟩)⟩, ⟨id, .request (.get 1)⟩,
        ⟨fun w => { w with area := w.area.deleteTier 0 }, .request (.get 2)⟩]
    let next : Turn Nat UInt8 := ⟨id, .request (.insert 3 ⟨2, 9⟩)⟩
    let after := (overflow (pairCache none none)).run pairWorld turns
    (∃ m, after.state.metrics = some m ∧ SameStory m after.log 2) ∧
      ∃ y, lastStored (turns ++ [next]) 1 = some y ∧ 7 = y.value := by
  intro turns next after
  have hbuilt : (pairBuilder none none).buildKind byteStorage bareWorld .diskOverflow =
      (.ok (overflow (pairCache none none)), pairWorld) := by
    simp only [Builder.buildKind, pair_built]
    rfl
  have hunforged : ∀ turn ∈ turns ++ [next], ∀ around : World,
      byteStorage.codec.Unforged around.area (turn.change around).area := by
    intro turn hturn around number name bytes v hfile hread
    refine ⟨bytes, ?_, hread⟩
    simp only [turns, next, List.cons_append, List.nil_append, List.mem_cons, List.not_mem_nil,
      or_false] at hturn
    rcases hturn with rfl | rfl | rfl | rfl | rfl
    case inr.inr.inr.inl => exact FileArea.loses_deleteTier 0 around.area number name bytes hfile
    all_goals exact hfile
  obtain ⟨hcounts, hshown⟩ := same_story (pairBuilder none none) byteStorage hbuilt nofun turns
  obtain ⟨y, hy, hvalue, -⟩ := hshown next
    (fun _ => ⟨faithful_byteStorage.truthful, hunforged⟩) ⟨1, some ⟨0, 7⟩, .overflow⟩ (by decide)
    ⟨0, 7⟩ rfl
  exact ⟨hcounts, y, hy, hvalue⟩

end Backend

end CacheLayer
