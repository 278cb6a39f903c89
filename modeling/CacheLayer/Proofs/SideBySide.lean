import CacheLayer.Proofs.Overflow.OwnFiles
import CacheLayer.Proofs.Populating
import CacheLayer.Proofs.Presence

/-!
# Caches side by side

Caches share the clock and the file area. A cache works in its own private directory alone, and what it
shows depends on that directory and no other; so caches with different directories leave each other's
contents alone. Building a cache makes a directory of its own and touches none that is there.

* `Backend.shows` : the contents of a cache; `Backend.shows_congr` : what they depend on.
* `Cache.ownFiles_perform` : every operation works in the cache's own directory.
* `Backend.Bare` : what was built or closed shows nothing.
* `FileArea.Grows`, `Backend.Founded` : what building does to the file area and what it gives;
  `Builder.founded_buildKind` : every builder does that.
-/

namespace CacheLayer

variable {K : Type u} {V : Type v}

/-! ## Directories -/

namespace Backend

def number? : Backend K V → Option Nat
  | overflow c => c.number?
  | _ => none

/-- What a cache does in the file area, it does in its own directory, which it keeps. -/
def OwnFiles (c : Backend K V) (w : World) (c' : Backend K V) (w' : World) : Prop :=
  w.area.Keeps c.number? c'.number? w'.area

variable {c c' c'' : Backend K V} {w w' w'' : World}

theorem OwnFiles.refl (c : Backend K V) (w : World) : OwnFiles c w c w := FileArea.Keeps.refl _ _

theorem OwnFiles.trans (h : OwnFiles c w c' w') (h' : OwnFiles c' w' c'' w'') :
    OwnFiles c w c'' w'' := FileArea.Keeps.trans h h'

theorem tiers_close (c : Backend K V) (w : World) (number : Nat) :
    (c.close w).world.area.tiers.get? number =
      if c.number? = some number then none else w.area.tiers.get? number := by
  cases c with
  | overflow c => exact c.tiers_close w number
  | _ => exact (if_neg nofun).symm

@[simp] theorem number?_close (c : Backend K V) (w : World) : (c.close w).state.number? = none := by
  cases c with
  | overflow c => exact c.number?_close w
  | _ => rfl

theorem uses_close (c : Backend K V) (w : World) :
    w.area.Uses c.number? (c.close w).state.number? (c.close w).world.area := by
  cases c with
  | overflow c => exact c.uses_close w
  | _ => exact (FileArea.Keeps.refl _ _).uses

variable [DecidableEq K]

theorem ownFiles_insert (c : Backend K V) (w : World) (k : K) (value : Shared V) :
    OwnFiles c w (c.insert w k value).state (c.insert w k value).world := by
  cases c with
  | overflow c => exact c.ownFiles_insert w k value
  | _ => exact FileArea.Keeps.refl _ _

theorem ownFiles_remove (c : Backend K V) (w : World) (k : K) :
    OwnFiles c w (c.remove w k).state (c.remove w k).world := by
  cases c with
  | overflow c => exact c.ownFiles_remove w k
  | _ => exact FileArea.Keeps.refl _ _

theorem ownFiles_get (c : Backend K V) (w : World) (k : K) :
    OwnFiles c w (c.get w k).state (c.get w k).world := by
  cases c with
  | overflow c => exact c.ownFiles_get w k
  | _ => exact FileArea.Keeps.refl _ _

theorem ownFiles_keys (c : Backend K V) (w : World) :
    OwnFiles c w (c.keys w).state (c.keys w).world := by
  cases c with
  | overflow c => exact c.ownFiles_purgeExpired w
  | _ => exact FileArea.Keeps.refl _ _

theorem ownFiles_size (c : Backend K V) (w : World) :
    OwnFiles c w (c.size w).state (c.size w).world := by
  cases c with
  | overflow c => exact c.ownFiles_purgeExpired w
  | _ => exact FileArea.Keeps.refl _ _

theorem ownFiles_purgeExpired (c : Backend K V) (w : World) :
    OwnFiles c w (((c.purgeExpired w).map Step.state).getD c)
      (((c.purgeExpired w).map Step.world).getD w) := by
  cases c with
  | overflow c => exact c.ownFiles_purgeExpired w
  | _ => exact FileArea.Keeps.refl _ _

end Backend

theorem Store.ownFiles_populate [DecidableEq K] (s : Store K V) (layer : Layer K V) (level : Nat)
    (w : World) (k : K) : s.backend.OwnFiles w (s.populate layer level w k).state.backend
      (s.populate layer level w k).world := by
  unfold Store.populate
  dsimp only
  split
  · rename_i v _
    exact s.backend.ownFiles_insert (w.share v).2 k (w.share v).1
  · exact .refl _ w

theorem Store.ownFiles_get [DecidableEq K] (layers : List (Layer K V)) (s : Store K V) (w : World)
    (k : K) : s.backend.OwnFiles w (s.get w k layers).state.backend (s.get w k layers).world := by
  induction layers generalizing s w with
  | nil => exact s.backend.ownFiles_get w k
  | cons layer below ih =>
    have hdescends := Store.get_descends layer below w k s
    generalize s.get w k (layer :: below) = out at hdescends ⊢
    cases hdescends with
    | found hfound => exact ih s w
    | asked hmode hmissed => exact (ih s w).trans (ownFiles_populate _ layer _ _ k)
    | foundAgain hmode hmissed hfound => exact (ih s w).trans (ih _ _)
    | askedAgain hmode hmissed hagain =>
      exact ((ih s w).trans (ih _ _)).trans (ownFiles_populate _ layer _ _ k)

namespace Cache

def OwnFiles (c : Cache K V) (w : World) (c' : Cache K V) (w' : World) : Prop :=
  c.store.backend.OwnFiles w c'.store.backend w'

/-- What a cache does in the file area, it does in its own directory, which it may give up. -/
def Uses (c : Cache K V) (w : World) (c' : Cache K V) (w' : World) : Prop :=
  w.area.Uses c.store.backend.number? c'.store.backend.number? w'.area

variable [DecidableEq K]

def worldAfter (c : Cache K V) (w : World) : Op K V → World
  | .insert k value => (c.insert w k value).world
  | .put k v => (c.put w k v).world
  | .putAll entries => (c.putAll w entries).world
  | .remove k => (c.remove w k).world
  | .get k => (c.get w k).world
  | .getAll ks => (c.getAll w ks).world
  | .refresh level k => ((c.refresh? level w k).map Step.world).getD w
  | .keys => (c.keys w).world
  | .size => (c.size w).world
  | .close => (c.close w).world
  | .purgeExpired => ((c.store.backend.purgeExpired w).map Step.world).getD w
  | .heap _ => w

theorem ownFiles_put (c : Cache K V) (w : World) (k : K) (v : Option V) :
    c.OwnFiles w (c.put w k v).state (c.put w k v).world := by
  cases v with
  | some v => exact c.store.backend.ownFiles_insert (w.share v).2 k (w.share v).1
  | none => exact c.store.backend.ownFiles_remove w k

theorem ownFiles_putAll (entries : List (K × Option V)) (c : Cache K V) (w : World) :
    c.OwnFiles w (c.putAll w entries).state (c.putAll w entries).world := by
  induction entries generalizing c w with
  | nil => exact .refl _ w
  | cons entry rest ih => exact Backend.OwnFiles.trans (c.ownFiles_put w entry.1 entry.2) (ih _ _)

theorem ownFiles_get (c : Cache K V) (w : World) (k : K) :
    c.OwnFiles w (c.get w k).state (c.get w k).world := c.store.ownFiles_get c.layers w k

theorem ownFiles_getAll (ks : List K) (c : Cache K V) (w : World) :
    c.OwnFiles w (c.getAll w ks).state (c.getAll w ks).world := by
  induction ks generalizing c w with
  | nil => exact .refl _ w
  | cons k ks ih =>
    have hfirst := c.ownFiles_get w k
    rw [Cache.getAll]
    unfold Step.bind
    dsimp only
    split
    · exact hfirst
    · rename_i value _
      have hholds (held : World) (harea : held.area = (c.get w k).world.area) :
          c.OwnFiles w ((c.get w k).state.getAll held ks).state
            ((c.get w k).state.getAll held ks).world := by
        have hrest := ih (c.get w k).state held
        unfold OwnFiles Backend.OwnFiles at hrest hfirst ⊢
        rw [harea] at hrest
        exact hfirst.trans hrest
      cases value with
      | none => exact hholds _ rfl
      | some value => exact hholds _ rfl

theorem ownFiles_perform (c : Cache K V) (w : World) {op : Op K V} (hopen : op ≠ .close) :
    c.OwnFiles w (c.perform w op) (c.worldAfter w op) := by
  cases op with
  | insert k value => exact c.store.backend.ownFiles_insert w k value
  | put k v => exact c.ownFiles_put w k v
  | putAll entries => exact ownFiles_putAll entries c w
  | remove k => exact c.store.backend.ownFiles_remove w k
  | get k => exact c.ownFiles_get w k
  | getAll ks => exact ownFiles_getAll ks c w
  | refresh level k =>
    unfold perform worldAfter refresh?
    dsimp only
    split
    · exact .refl _ w
    · exact c.store.ownFiles_populate _ _ w k
  | keys => exact c.store.backend.ownFiles_keys w
  | size => exact c.store.backend.ownFiles_size w
  | close => exact absurd rfl hopen
  | purgeExpired => exact c.store.backend.ownFiles_purgeExpired w
  | heap op =>
    unfold perform worldAfter
    dsimp only
    split
    · rename_i s hsoft
      unfold OwnFiles
      rw [hsoft]
      exact FileArea.Keeps.refl _ _
    · exact .refl _ w

theorem uses_perform (c : Cache K V) (w : World) (op : Op K V) :
    c.Uses w (c.perform w op) (c.worldAfter w op) := by
  by_cases hopen : op = .close
  · subst hopen
    exact c.store.backend.uses_close w
  · exact (c.ownFiles_perform w hopen).uses

end Cache

/-! ## Contents -/

variable [DecidableEq K]

theorem DiskTier.content?_congr {t : DiskTier K} {a a' : FileArea}
    (hfiles : ∀ number, t.number? = some number → a'.tiers.get? number = a.tiers.get? number)
    (k : K) : t.content? a' k = t.content? a k := by
  unfold content?
  cases t.slots.get? k with
  | none => rfl
  | some slot =>
    cases hplace : t.place with
    | none => rfl
    | some place =>
      have hnumber : t.number? = some place.number := congrArg (Option.map _) hplace
      rw [Option.bind_some, Option.bind_some, Option.bind_some, Option.bind_some, FileArea.read,
        hfiles _ hnumber]
      rfl

theorem Overflow.value_peek_congr {c : Overflow K V} {w w' : World} (hnow : w'.now = w.now)
    (hfiles : ∀ number, c.number? = some number →
      w'.area.tiers.get? number = w.area.tiers.get? number) (k : K) :
    (c.peek w' k).map Shared.value = (c.peek w k).map Shared.value := by
  unfold peek expiration
  rw [hnow]
  split
  · rfl
  · have hview : (c.disk.bind fun t => t.view? c.settings.codec w'.area k) =
        c.disk.bind fun t => t.view? c.settings.codec w.area k := by
      cases hdisk : c.disk with
      | none => rfl
      | some t =>
        have hnumber : c.number? = t.number? := congrArg (Option.bind · DiskTier.number?) hdisk
        rw [hnumber] at hfiles
        simp only [Option.bind_some, DiskTier.view?, DiskTier.content?_congr hfiles]
    rw [hview, Option.map_bind, Option.map_bind]
    refine Option.bind_congr fun found _ => ?_
    rw [Function.comp_apply, Function.comp_apply]
    split <;> rfl

namespace Backend

/-- Whether `k` is present, and the value that a look-up finds. -/
def shows (w : World) (k : K) (c : Backend K V) : Bool × Option V :=
  (c.contains w k, (c.get w k).answer.map Shared.value)

/-- What a cache shows depends on the clock, on what others hold and on its own directory. -/
theorem shows_congr {c : Backend K V} {w w' : World} (haround : w.Around w')
    (hfiles : ∀ number, c.number? = some number →
      w'.area.tiers.get? number = w.area.tiers.get? number) (k : K) :
    c.shows w' k = c.shows w k := by
  unfold shows
  rw [c.contains_congr haround k]
  refine congrArg (Prod.mk _) ?_
  obtain ⟨hnow, hheld, -⟩ := haround
  cases c with
  | overflow c =>
    show ((c.get w' k).answer.map Shared.value) = (c.get w k).answer.map Shared.value
    rw [Overflow.get_answer, Overflow.get_answer]
    exact Overflow.value_peek_congr hnow hfiles k
  | volatile c =>
    show ((c.get w'.now k).answer.map Shared.value) = (c.get w.now k).answer.map Shared.value
    rw [hnow]
  | soft c =>
    show ((c.get w' k).answer.map Shared.value) = (c.get w k).answer.map Shared.value
    have halive : c.alive w' = c.alive w := by
      funext s
      unfold Soft.alive SoftHeap.alive World.holds
      rw [hheld]
    rw [Soft.get_answer, Soft.get_answer, Soft.live?, Soft.live?, halive]
  | absent name => rfl

/-- Nothing was stored in the cache since it was made or closed. -/
def Bare : Backend K V → Prop
  | overflow c => c.entries = .empty ∧ c.keyIndex = .empty ∧ ∀ t, c.disk = some t → t.slots = .empty
  | volatile c => ∀ k, c.stored? k = none
  | soft c => c.handles = .empty
  | absent _ => True

theorem Bare.shows {c : Backend K V} (h : c.Bare) (w : World) (k : K) :
    c.shows w k = (false, none) := by
  cases c with
  | overflow c =>
    obtain ⟨hentries, hindex, hslots⟩ := h
    have hcontains : c.contains w k = false := by
      rw [Overflow.contains, hindex]
      rfl
    have hpeek : c.peek w k = none := by
      unfold Overflow.peek
      rw [hentries]
      show Option.bind (c.disk.bind _) _ = none
      cases hdisk : c.disk with
      | none => rfl
      | some t =>
        have hstamps : t.stamps? k = none := by
          rw [DiskTier.stamps?, hslots t hdisk]
          rfl
        rw [Option.bind_some, DiskTier.view?, hstamps]
        rfl
    show (c.contains w k, (c.get w k).answer.map _) = _
    rw [hcontains, Overflow.get_answer, hpeek]
    rfl
  | volatile c =>
    have hstored : c.stored? k = none := h k
    show (c.contains w.now k, (c.get w.now k).answer.map _) = _
    rw [Volatile.contains_eq, Volatile.get_answer, hstored]
    rfl
  | soft c =>
    have hhandles : c.handles = .empty := h
    show (c.contains w k, (c.get w k).answer.map _) = _
    rw [Soft.contains_eq, Soft.get_answer, Soft.live?, hhandles]
    rfl
  | absent name => rfl

theorem bare_close (c : Backend K V) (w : World) : (c.close w).state.Bare := by
  cases c with
  | overflow c =>
    show Bare (.overflow (c.close w).state)
    rw [Overflow.close_state]
    refine ⟨rfl, rfl, fun t ht => ?_⟩
    obtain ⟨t', -, rfl⟩ := Option.map_eq_some_iff.1 ht
    rfl
  | volatile c => exact c.stored?_close
  | soft c => rfl
  | absent name => trivial

end Backend

/-! ## Building -/

/-- The private directories that exist stay as they are; there may be new ones. -/
structure FileArea.Grows (a a' : FileArea) : Prop where
  nextTier : a.nextTier ≤ a'.nextTier
  tiers : ∀ number < a.nextTier, a'.tiers.get? number = a.tiers.get? number

namespace FileArea.Grows

variable {a a' a'' : FileArea}

theorem refl (a : FileArea) : a.Grows a := ⟨Nat.le_refl _, fun _ _ => rfl⟩

theorem trans (h : a.Grows a') (h' : a'.Grows a'') : a.Grows a'' where
  nextTier := Nat.le_trans h.nextTier h'.nextTier
  tiers number hn :=
    (h'.tiers number (Nat.lt_of_lt_of_le hn h.nextTier)).trans (h.tiers number hn)

end FileArea.Grows

/-- What building a cache does: it makes its own directory, if it uses one, and leaves all others. -/
structure Backend.Founded (a : FileArea) (c : Backend K V) (a' : FileArea) : Prop where
  grows : a.Grows a'
  bare : c.Bare
  own : ∀ number, c.number? = some number → a.nextTier ≤ number ∧ number < a'.nextTier

theorem Backend.Founded.within {a a₁ a₂ a' : FileArea} {c : Backend K V} (h : c.Founded a₁ a₂)
    (hbefore : a.Grows a₁) (hafter : a₂.Grows a') : c.Founded a a' where
  grows := (hbefore.trans h.grows).trans hafter
  bare := h.bare
  own number hnumber :=
    ⟨Nat.le_trans hbefore.nextTier (h.own number hnumber).1,
      Nat.lt_of_lt_of_le (h.own number hnumber).2 hafter.nextTier⟩

omit [DecidableEq K] in
theorem DiskTier.grows_open? (a : FileArea) (parent : Path) (name : String) (bound : Bound) :
    let opened : Option (DiskTier K) × FileArea := DiskTier.open? a parent name bound
    a.Grows opened.2 ∧ ∀ t, opened.1 = some t → t.slots = .empty ∧
      ∀ number, t.number? = some number → a.nextTier ≤ number ∧ number < opened.2.nextTier := by
  have hopened := DiskTier.opened (K := K) a parent name bound
  generalize (DiskTier.open? a parent name bound : Option (DiskTier K) × FileArea) = opened at hopened
  cases hopened with
  | failed directories => exact ⟨⟨Nat.le_refl _, fun _ _ => rfl⟩, nofun⟩
  | made hpath =>
    refine ⟨⟨Nat.le_succ _, fun number hn => ?_⟩, fun t ht => ?_⟩
    · show (a.tiers.insert a.nextTier _).get? number = _
      rw [Table.get?_insert, if_neg (Nat.ne_of_lt hn)]
    · obtain rfl := Option.some.inj ht
      refine ⟨rfl, fun number hnumber => ?_⟩
      obtain rfl := Option.some.inj hnumber
      exact ⟨Nat.le_refl _, Nat.lt_succ_self _⟩

namespace Builder

omit [DecidableEq K] in
theorem grows_buildOverflow (b : Builder) (st : Storage K V) (w : World) :
    w.area.Grows (b.buildOverflow st w).2.area ∧ ∀ c, (b.buildOverflow st w).1 = .ok c →
      c.entries = .empty ∧ c.keyIndex = .empty ∧ (∀ t, c.disk = some t → t.slots = .empty) ∧
        ∀ number, c.number? = some number →
          w.area.nextTier ≤ number ∧ number < (b.buildOverflow st w).2.area.nextTier := by
  unfold buildOverflow
  split
  · exact ⟨.refl w.area, nofun⟩
  · dsimp only
    split
    · refine ⟨.refl w.area, fun c hc => ?_⟩
      obtain rfl := Except.ok.inj hc
      exact ⟨rfl, rfl, nofun, nofun⟩
    · obtain ⟨hgrows, htier⟩ := DiskTier.grows_open? (K := K) w.area (Path.ofText b.directory)
        b.name b.config.diskBound
      split
      · rename_i area hopen
        rw [hopen] at hgrows
        exact ⟨hgrows, nofun⟩
      · rename_i t area hopen
        rw [hopen] at hgrows htier
        obtain ⟨hslots, hnumber⟩ := htier t rfl
        refine ⟨hgrows, fun c hc => ?_⟩
        obtain rfl := Except.ok.inj hc
        refine ⟨rfl, rfl, fun t' ht' => ?_, hnumber⟩
        rw [← Option.some.inj ht', hslots]

omit [DecidableEq K] in
theorem grows_buildKind (b : Builder) (st : Storage K V) (w : World) (kind : CacheKind) :
    w.area.Grows (b.buildKind st w kind).2.area := by
  cases kind with
  | diskOverflow => exact (b.grows_buildOverflow st w).1
  | _ => exact .refl w.area

theorem founded_buildKind {b : Builder} {st : Storage K V} {w w' : World} {kind : CacheKind}
    {c : Backend K V} (h : b.buildKind st w kind = (.ok c, w')) : c.Founded w.area w'.area := by
  have hgrows : w.area.Grows w'.area := by
    have hall := b.grows_buildKind st w kind
    rwa [h] at hall
  cases Backend.made_of_buildKind h with
  | overflow hbuilt =>
    obtain ⟨-, hfounded⟩ := b.grows_buildOverflow st w
    rw [hbuilt] at hfounded
    obtain ⟨hentries, hindex, hslots, hown⟩ := hfounded _ rfl
    exact ⟨hgrows, ⟨hentries, hindex, hslots⟩, hown⟩
  | volatile hbuilt =>
    refine ⟨hgrows, fun k => ?_, nofun⟩
    rw [Volatile.eq_make_of_built hbuilt, Volatile.stored?, Volatile.shard_make, Table.get?_empty]
  | soft hbuilt =>
    refine ⟨hgrows, ?_, nofun⟩
    rw [Soft.eq_make_of_built hbuilt]
    rfl
  | absent => exact ⟨hgrows, trivial, nofun⟩

end Builder

end CacheLayer
