import CacheLayer.Proofs.LookAgain
import CacheLayer.Proofs.Overflow.Presence
import CacheLayer.Proofs.ProviderCalls
import CacheLayer.Proofs.Volatile.OneMap

/-!
# What makes a key present

Of every kind of cache: an operation can make no key present but the one that it stores under. Under
populating layers that holds for a look-up of its key, and where the backend finds the key, or there
are no layers, a look-up makes none present and asks nobody.

* `Backend.Course` : what can become of a cache while values are stored under the given keys alone.
* `Backend.Regular` : what every operation keeps of a cache, and so every course.
* `Backend.Spares` : a course at one reading of the clock, in which no other key becomes present.
* `Store.get_seeks`, `Store.called_get_eq_nil` : a look-up under layers.
-/

namespace CacheLayer

variable {K : Type u} {V : Type v} [DecidableEq K]

/-! ## In memory -/

namespace Volatile

variable {c : Volatile K V} {now : Nat} {k : K}

theorem stored?_sweep {e : Entry V} {i : Nat} (h : (c.sweep now i).cache.stored? k = some e) :
    c.stored? k = some e := by
  unfold sweep at h
  split at h
  · exact h
  · have h : (c.setShard i ((c.shard i).keep fun _ e => c.live now e)).stored? k = some e := h
    rw [stored?_setShard] at h
    split at h
    · rename_i hsame
      rw [Table.get?_keep, Option.filter_eq_some_iff, hsame.1] at h
      exact h.1
    · exact h

theorem stored?_sweepAll {e : Entry V} (is : List Nat)
    (h : (c.sweepAll now is).cache.stored? k = some e) : c.stored? k = some e := by
  induction is generalizing c with
  | nil => exact h
  | cons i is ih => exact stored?_sweep (ih h)

theorem stored?_insert {e : Entry V} {k' : K} {value : Shared V} :
    (c.insert now k' value).cache.stored? k = some e →
      (c.store k' ⟨value, 1, .create now c.timeToLive c.timeToIdle⟩).stored? k = some e := by
  have hdraw : ∀ (c : Volatile K V) (metrics : Metrics) (generator : Weyl),
      ({ c with metrics, generator } : Volatile K V).stored? k = c.stored? k := fun _ _ _ => rfl
  unfold insert
  dsimp only
  split
  · intro h
    have hswept := stored?_sweep h
    rwa [hdraw (c.store k' _)] at hswept
  · rw [hdraw (c.store k' _)]
    exact fun h => h

theorem Placed.present?_insert {k' : K} (hc : c.Placed) (hk : k ≠ k') (value : Shared V) :
    (c.insert now k' value).cache.present? now k = c.present? now k := by
  rw [(c.insert_forgets now k' value).present?]
  exact (hc.present?_store now k' k _).trans (if_neg hk)

theorem stored?_close (c : Volatile K V) (k : K) : c.close.stored? k = none := by
  unfold stored?
  rw [shard_close, Table.get?_empty]

theorem Placed.stored?_get {k' : K} (hc : c.Placed) (hk : k ≠ k') :
    (c.get now k').cache.stored? k = c.stored? k := by
  unfold Volatile.get
  split
  · rfl
  · split
    · exact (c.stored?_erase k' k).trans (if_neg hk)
    · dsimp only
      split
      · exact (hc.stored?_store k' k _).trans (if_neg hk)
      · rfl

theorem live_get (c : Volatile K V) (now : Nat) (k : K) :
    (c.get now k).cache.live now = c.live now := by
  have hidle : (c.get now k).cache.timeToIdle = c.timeToIdle := by
    unfold get
    split
    · rfl
    · split
      · rfl
      · dsimp only
        split <;> rfl
  funext e
  unfold live expiration
  rw [hidle]

theorem Placed.contains_of_contains_get {k' : K} (hc : c.Placed)
    (h : (c.get now k').cache.contains now k = true) : c.contains now k = true := by
  by_cases hk : k = k'
  · rw [hk] at h ⊢
    by_contra hlacks
    rw [contains_eq_isSome, Option.not_isSome_iff_eq_none] at hlacks
    have hmissed : (c.get now k').answer = none := by
      rw [get_answer_eq, hlacks]
      rfl
    rw [contains_eq, stored?_of_missed hmissed] at h
    cases h
  · rwa [contains_eq, hc.stored?_get hk, live_get, ← contains_eq] at h

end Volatile

/-! ## Any cache -/

namespace Backend

inductive Op (K : Type u) (V : Type v) where
  | request (r : MapRequest K (Shared V))
  | purgeExpired
  | close
  /-- Somebody else works on the heap of a cache with soft values. -/
  | heap (op : SoftHeap.Op K)

def Op.stored? : Op K V → Option (K × Shared V)
  | .request (.insert k value) => some (k, value)
  | _ => none

def perform (c : Backend K V) (w : World) : Op K V → Step (Backend K V) (Eviction K V) Unit
  | .request (.insert k value) => c.insert w k value
  | .request (.remove k) => (c.remove w k).mapAnswer fun _ => ()
  | .request (.get k) => (c.get w k).mapAnswer fun _ => ()
  | .request (.contains _) => .pure () c w
  | .request .keys => (c.keys w).mapAnswer fun _ => ()
  | .request .size => (c.size w).mapAnswer fun _ => ()
  | .purgeExpired => (c.purgeExpired w).getD (.pure () c w)
  | .close => c.close w
  | .heap op =>
    match c with
    | soft s => .pure () (soft { s with heap := s.heap.apply op }) w
    | c => .pure () c w

/-- What can become of a cache and the world around it while values are stored under keys of `P` alone,
objects that exist at the time. In between, the world may become another one, in which those still
exist. -/
inductive Course (P : K → Prop) (c : Backend K V) (w : World) : Backend K V → World → Prop
  | refl : Course P c w c w
  | step {c' : Backend K V} {w' : World} (h : Course P c w c' w') (op : Op K V)
    (hop : ∀ e, op.stored? = some e → P e.1 ∧ e.2.id < w'.nextId) :
    Course P c w (c'.perform w' op).state (c'.perform w' op).world
  | elsewhere {c' : Backend K V} {w' w'' : World} (h : Course P c w c' w')
    (hid : w'.nextId ≤ w''.nextId) : Course P c w c' w''

/-- No entry is under `k`, live or not. -/
def Lacks (k : K) : Backend K V → Prop
  | overflow c => c.standing? k = none
  | volatile c => c.stored? k = none
  | soft c => c.handles.get? k = none
  | absent _ => True

/-- What every operation keeps of a cache. The objects that a soft cache has handles of exist. -/
def Regular (w : World) : Backend K V → Prop
  | overflow c => c.Sound ∧ c.Dated
  | volatile c => c.Placed
  | soft c => ∀ k s, c.handles.get? k = some s → s.id < w.nextId
  | absent _ => True

variable {c : Backend K V} {w : World} {op : Op K V} {k : K}

theorem Regular.elsewhere (h : c.Regular w) {w' : World} (hid : w.nextId ≤ w'.nextId) :
    c.Regular w' := by
  cases c with
  | soft c => exact fun k s hstored => Nat.lt_of_lt_of_le (h k s hstored) hid
  | _ => exact h

theorem Regular.not_contains (h : c.Regular w) (hlacks : c.Lacks k) (later : World) :
    c.contains later k = false := by
  rw [← Bool.not_eq_true]
  intro hcontains
  cases c with
  | overflow c =>
    obtain ⟨s, hs, -⟩ := (h.1.contains_iff h.2 later k).1 hcontains
    exact Option.some_ne_none s (hs.symm.trans hlacks)
  | volatile c =>
    have hlacks : c.stored? k = none := hlacks
    have hcontains : c.contains later.now k = true := hcontains
    rw [Volatile.contains_eq, hlacks] at hcontains
    cases hcontains
  | soft c =>
    have hlacks : c.handles.get? k = none := hlacks
    have hcontains : c.contains later k = true := hcontains
    rw [Soft.contains, hlacks] at hcontains
    cases hcontains
  | absent name => cases hcontains

theorem Regular.contains_of_get (h : c.Regular w) {value : Shared V}
    (hget : (c.get w k).answer = some value) : c.contains w k = true := by
  cases c with
  | overflow c => exact h.1.contains_of_get h.2 hget
  | volatile c =>
    have hget : (c.get w.now k).answer = some value := hget
    show c.contains w.now k = true
    rw [Volatile.get_answer_eq] at hget
    rw [Volatile.contains_eq_isSome, ← Option.isSome_map, hget]
    rfl
  | soft c =>
    have hget : (c.get w k).answer = some value := hget
    show c.contains w k = true
    rw [Soft.contains_eq, ← Soft.get_answer, hget]
    rfl
  | absent name => cases hget

/-! ### What an operation does -/

def Op.overDisk : Op K V → Overflow.Op K V
  | .request r => .request r
  | .purgeExpired => .purgeExpired
  | .close => .close
  | .heap _ => .outside id

theorem perform_overflow (c : Overflow K V) (w : World) (op : Op K V) :
    (overflow c).perform w op =
      ((c.perform w op.overDisk).mapState overflow).mapAnswer fun _ => () := by
  cases op with
  | request r => cases r <;> rfl
  | _ => rfl

omit [DecidableEq K] in
theorem Op.not_mem_stored (hop : ∀ e, op.stored? = some e → e.1 ≠ k) : k ∉ op.overDisk.stored := by
  cases op with
  | request r =>
    cases r with
    | insert k' value => simpa [Op.overDisk, Overflow.Op.stored] using (hop _ rfl).symm
    | _ => exact List.not_mem_nil
  | _ => exact List.not_mem_nil

theorem Regular.around (h : c.Regular w) (w' : World) (op : Op K V) :
    w'.Around (c.perform w' op).world := by
  cases c with
  | overflow c =>
    rw [perform_overflow]
    cases op with
    | request r => exact h.1.around_serve w' r
    | purgeExpired => exact h.1.around_purgeExpired w'
    | close => exact c.around_close w'
    | heap op => exact .refl w'
  | _ =>
    cases op with
    | request r => cases r <;> exact .refl w'
    | _ => exact .refl w'

theorem perform_soft (c : Soft K V) (w : World) (op : Op K V) :
    ∃ c' : Soft K V, ((soft c).perform w op).state = soft c' ∧
      (∀ k s, c'.handles.get? k = some s →
        c.handles.get? k = some s ∨ op.stored? = some (k, s)) ∧
      ∀ k s, c'.heap.retained.get? k = some s →
        c.heap.retained.get? k = some s ∨ op.stored? = some (k, s) := by
  cases op with
  | request r =>
    have hstores {k : K} {s : Shared V} (hr : Soft.Op.request r = .request (.insert k s)) :
        (Op.request r).stored? = some (k, s) := by
      cases hr
      rfl
    refine ⟨(c.perform w (.request r)).cache, ?_, fun k s h => ?_, fun k s h => ?_⟩
    · cases r <;> rfl
    · exact (Soft.handles_perform h).imp_right hstores
    · exact (Soft.retained_perform h).imp_right hstores
  | purgeExpired => exact ⟨c, rfl, fun _ _ h => .inl h, fun _ _ h => .inl h⟩
  | close => exact ⟨c.close, rfl, nofun, nofun⟩
  | heap op =>
    exact ⟨{ c with heap := c.heap.apply op }, rfl, fun _ _ h => .inl h,
      fun k s h => .inl (c.heap.apply_within op k s h)⟩

theorem Regular.perform (h : c.Regular w) (hop : ∀ e, op.stored? = some e → e.2.id < w.nextId) :
    (c.perform w op).state.Regular (c.perform w op).world := by
  refine Regular.elsewhere (w := w) ?_ (h.around w op).nextId
  cases c with
  | overflow c =>
    rw [perform_overflow]
    exact ⟨h.1.perform w op.overDisk, h.2.perform h.1 w op.overDisk⟩
  | volatile c =>
    have hplaced : c.Placed := h
    cases op with
    | request r => cases r with
      | insert k value => exact hplaced.serve w.now (.insert k value)
      | remove k => exact hplaced.remove w.now k
      | get k => exact hplaced.get w.now k
      | _ => exact h
    | purgeExpired => exact (c.purgeExpired_forgets w.now).placed hplaced
    | close => exact hplaced.close
    | heap op => exact h
  | soft c =>
    obtain ⟨c', hc', hhandles, -⟩ := perform_soft c w op
    rw [hc']
    intro k s hstored
    rcases hhandles k s hstored with hstored | hstores
    · exact h k s hstored
    · exact hop _ hstores
  | absent name =>
    cases op with
    | request r => cases r <;> trivial
    | _ => trivial

theorem lacks_perform_volatile {c : Volatile K V} (hplaced : c.Placed)
    (hop : ∀ e, op.stored? = some e → e.1 ≠ k) (hlacks : c.stored? k = none) (w : World) :
    ((volatile c).perform w op).state.Lacks k := by
  cases op with
  | request r =>
    cases r with
    | insert k' value =>
      have hk : k ≠ k' := (hop _ rfl).symm
      show (c.insert w.now k' value).cache.stored? k = none
      rw [Option.eq_none_iff_forall_ne_some]
      intro e he
      have hstored := Volatile.stored?_insert he
      rw [hplaced.stored?_store, if_neg hk, hlacks] at hstored
      cases hstored
    | remove k' =>
      show (c.remove w.now k').cache.stored? k = none
      rw [Volatile.stored?_remove, hlacks]
      exact ite_self none
    | get k' =>
      show (c.get w.now k').cache.stored? k = none
      by_cases hk : k = k'
      · rw [← hk, Volatile.get_of_not_stored w.now hlacks]
        exact hlacks
      · rw [hplaced.stored?_get hk, hlacks]
    | _ => exact hlacks
  | purgeExpired =>
    show (c.purgeExpired w.now).cache.stored? k = none
    rw [Option.eq_none_iff_forall_ne_some]
    intro e he
    rw [Volatile.stored?_sweepAll _ he] at hlacks
    cases hlacks
  | close => exact c.stored?_close k
  | heap op => exact hlacks

theorem Regular.lacks_perform (h : c.Regular w) (hop : ∀ e, op.stored? = some e → e.1 ≠ k)
    (hlacks : c.Lacks k) (w' : World) : (c.perform w' op).state.Lacks k := by
  cases c with
  | overflow c =>
    rw [perform_overflow]
    exact h.1.vacant_perform w' op.overDisk (Op.not_mem_stored hop) hlacks
  | volatile c => exact lacks_perform_volatile h hop hlacks w'
  | soft c =>
    obtain ⟨c', hc', hhandles, -⟩ := perform_soft c w' op
    rw [hc']
    show c'.handles.get? k = none
    rw [Option.eq_none_iff_forall_ne_some]
    intro s hs
    rcases hhandles k s hs with hstored | hstores
    · exact Option.some_ne_none s (hstored.symm.trans hlacks)
    · exact hop _ hstores rfl
  | absent name =>
    cases op with
    | request r => cases r <;> trivial
    | _ => trivial

theorem contains_perform_volatile {c : Volatile K V} (hplaced : c.Placed)
    (hop : ∀ e, op.stored? = some e → e.1 ≠ k) {w later : World} (hnow : later.now = w.now)
    (hpresent : ((volatile c).perform w op).state.contains later k = true) :
    c.contains w.now k = true := by
  have hshown (c' : Volatile K V) (hc' : ((volatile c).perform w op).state = volatile c') :
      c'.contains w.now k = true := by
    rw [hc'] at hpresent
    rw [← hnow]
    exact hpresent
  cases op with
  | request r =>
    cases r with
    | insert k' value =>
      rw [Volatile.contains_eq_isSome, ← hplaced.present?_insert (hop _ rfl).symm value,
        ← Volatile.contains_eq_isSome]
      exact hshown _ rfl
    | remove k' =>
      have hleft := hshown (c.remove w.now k').cache rfl
      rw [Volatile.contains_remove, Bool.and_eq_true] at hleft
      exact hleft.2
    | get k' => exact hplaced.contains_of_contains_get (hshown _ rfl)
    | _ => exact hshown _ rfl
  | purgeExpired =>
    rw [Volatile.contains_eq_isSome, ← (c.purgeExpired_forgets w.now).present?,
      ← Volatile.contains_eq_isSome]
    exact hshown _ rfl
  | close =>
    have hleft := hshown c.close rfl
    rw [Volatile.contains_eq, Volatile.stored?_close] at hleft
    cases hleft
  | heap op => exact hshown _ rfl

/-- What is present after an operation was present before, unless it is stored. An object that is
stored must be new, lest it bring another handle of itself to life. -/
theorem Regular.contains_perform (h : c.Regular w) {w' later : World} (hnow : later.now = w'.now)
    (hop : ∀ e, op.stored? = some e → e.1 ≠ k ∧ w.nextId ≤ e.2.id)
    (hpresent : (c.perform w' op).state.contains later k = true) : c.contains later k = true := by
  have hk : ∀ e, op.stored? = some e → e.1 ≠ k := fun e he => (hop e he).1
  cases c with
  | overflow c =>
    rw [perform_overflow] at hpresent
    exact h.1.contains_perform h.2 w' op.overDisk (Op.not_mem_stored hk) hnow hpresent
  | volatile c =>
    show c.contains later.now k = true
    rw [hnow]
    exact contains_perform_volatile h hk hnow hpresent
  | soft c =>
    obtain ⟨c', hc', hhandles, hretained⟩ := perform_soft c w' op
    rw [hc'] at hpresent
    have hpresent : c'.contains later k = true := hpresent
    show c.contains later k = true
    unfold Soft.contains at hpresent ⊢
    split at hpresent
    · rename_i s hs
      rcases hhandles k s hs with hstored | hstores
      · rw [hstored]
        rcases (c'.heap.alive_iff later s).1 hpresent with ⟨k', s', hkept, hid⟩ | hheld
        · rcases hretained k' s' hkept with hkept | hstores
          · exact (c.heap.alive_iff later s).2 (.inl ⟨k', s', hkept, hid⟩)
          · have hold := h k s hstored
            have hnew : w.nextId ≤ s'.id := (hop _ hstores).2
            omega
        · exact (c.heap.alive_iff later s).2 (.inr hheld)
      · exact (hk _ hstores rfl).elim
    · cases hpresent
  | absent name =>
    cases op with
    | request r => cases r <;> cases hpresent
    | _ => cases hpresent

/-! ### Courses -/

theorem Course.trans {P : K → Prop} {c' c'' : Backend K V} {w' w'' : World}
    (h : Course P c w c' w') (h' : Course P c' w' c'' w'') : Course P c w c'' w'' := by
  induction h' with
  | refl => exact h
  | step _ op hop ih => exact .step ih op hop
  | elsewhere _ hid ih => exact .elsewhere ih hid

theorem Course.mono {P Q : K → Prop} (hPQ : ∀ k, P k → Q k) {c' : Backend K V} {w' : World}
    (h : Course P c w c' w') : Course Q c w c' w' := by
  induction h with
  | refl => exact .refl
  | step _ op hop ih => exact .step ih op fun e he => ⟨hPQ _ (hop e he).1, (hop e he).2⟩
  | elsewhere _ hid ih => exact .elsewhere ih hid

theorem Regular.course {P : K → Prop} {c' : Backend K V} {w' : World} (h : c.Regular w)
    (hcourse : Course P c w c' w') : c'.Regular w' := by
  induction hcourse with
  | refl => exact h
  | step _ op hop ih => exact ih.perform fun e he => (hop e he).2
  | elsewhere _ hid ih => exact ih.elsewhere hid

theorem Regular.lacks_course {P : K → Prop} {c' : Backend K V} {w' : World} (h : c.Regular w)
    (hcourse : Course P c w c' w') (hk : ¬ P k) (hlacks : c.Lacks k) : c'.Lacks k := by
  induction hcourse with
  | refl => exact hlacks
  | @step c' w' hbefore op hop ih =>
    refine (h.course hbefore).lacks_perform (fun e he heq => hk ?_) ih w'
    rw [← heq]
    exact (hop e he).1
  | elsewhere _ _ ih => exact ih

theorem regular_of_built {b : Builder} {st : Storage K V} {w₀ w₁ : World} {kind : CacheKind}
    {c : Backend K V} (h : b.buildKind st w₀ kind = (.ok c, w₁)) : c.Regular w₁ := by
  cases made_of_buildKind h with
  | overflow hbuilt =>
    exact ⟨(Builder.built hbuilt).sound, fun _ => (Builder.built hbuilt).everyStamp⟩
  | volatile hbuilt => exact Volatile.placed_of_built hbuilt
  | soft hbuilt =>
    rw [Soft.eq_make_of_built hbuilt]
    exact nofun
  | absent => trivial

/-! ### Sparing other keys -/

/-- A course that takes no time, and in which no key but those of `P` becomes present, whatever
somebody outside holds. -/
structure Spares (P : K → Prop) (c : Backend K V) (w : World) (c' : Backend K V) (w' : World) :
    Prop where
  course : Course P c w c' w'
  around : w.Around w'
  contains : ∀ later : World, later.now = w.now → ∀ k, ¬ P k → c'.contains later k = true →
    c.contains later k = true

variable {P Q : K → Prop} {c' c'' : Backend K V} {w' w'' : World}

theorem Spares.refl (P : K → Prop) (c : Backend K V) (w : World) : Spares P c w c w :=
  ⟨.refl, .refl w, fun _ _ _ _ h => h⟩

theorem Spares.trans (h : Spares P c w c' w') (h' : Spares P c' w' c'' w'') :
    Spares P c w c'' w'' := by
  refine ⟨h.course.trans h'.course, h.around.trans h'.around, fun later hnow k hk hpresent => ?_⟩
  have hmiddle := h'.contains later (hnow.trans h.around.now.symm) k hk hpresent
  exact h.contains later hnow k hk hmiddle

theorem Spares.mono (hPQ : ∀ k, P k → Q k) (h : Spares P c w c' w') : Spares Q c w c' w' :=
  ⟨h.course.mono hPQ, h.around, fun later hnow k hk => h.contains later hnow k fun hP => hk (hPQ k hP)⟩

theorem Regular.spares (h : c.Regular w) (op : Op K V) (hop : op.stored? = none) :
    Spares P c w (c.perform w op).state (c.perform w op).world where
  course := .step .refl op fun e he => by rw [hop] at he; cases he
  around := h.around w op
  contains later hnow k _ := h.contains_perform hnow fun e he => by rw [hop] at he; cases he

theorem Regular.spares_share (h : c.Regular w) (k : K) (v : V) :
    Spares (· = k) c w (c.insert (w.share v).2 k (w.share v).1).state
      (c.insert (w.share v).2 k (w.share v).1).world := by
  have hshared : w.Around (w.share v).2 := ⟨rfl, rfl, Nat.le_succ _⟩
  refine ⟨?_, ?_, fun later hnow k' hk hpresent => ?_⟩
  · refine (Course.refl.elsewhere hshared.nextId).step (.request (.insert k (w.share v).1)) ?_
    rintro e he
    obtain rfl := Option.some.inj he
    exact ⟨rfl, Nat.lt_succ_self _⟩
  · exact hshared.trans (h.around _ (.request (.insert k (w.share v).1)))
  · have hnow : later.now = (w.share v).2.now := hnow
    let op : Op K V := .request (.insert k (w.share v).1)
    have hop : ∀ e, op.stored? = some e → e.1 ≠ k' ∧ w.nextId ≤ e.2.id := by
      intro e he
      obtain rfl := Option.some.inj he
      exact ⟨fun heq => hk heq.symm, Nat.le_refl _⟩
    exact h.contains_perform hnow hop hpresent

theorem Spares.elsewhere (P : K → Prop) (c : Backend K V) (h : w.Around w') : Spares P c w c w' :=
  ⟨.elsewhere .refl h.nextId, h, fun _ _ _ _ h => h⟩

theorem Spares.holding {id : Nat} (h : Spares P c (w.hold id) c' w') :
    Spares P c w c' { w' with held := w.held } := by
  have hheld : Course P c w c (w.hold id) := .elsewhere .refl (Nat.le_refl w.nextId)
  exact ⟨.elsewhere (hheld.trans h.course) (Nat.le_refl w'.nextId),
    ⟨h.around.now, rfl, h.around.nextId⟩, h.contains⟩

theorem Regular.lacks_remove (h : c.Regular w) (w' : World) (k : K) :
    (c.remove w' k).state.Lacks k := by
  cases c with
  | overflow c =>
    have hremoved := h.1.stamps?_remove w' k k
    rw [if_pos rfl, Overflow.stamps?_eq] at hremoved
    exact Option.map_eq_none_iff.1 hremoved
  | volatile c => exact (c.stored?_remove w'.now k k).trans (if_pos rfl)
  | soft c =>
    show (c.remove w' k).cache.handles.get? k = none
    rw [Soft.remove_cache]
    exact (Table.get?_erase c.handles k k).trans (if_pos rfl)
  | absent name => trivial

theorem contains_congr (c : Backend K V) (h : w.Around w') (k : K) :
    c.contains w' k = c.contains w k := by
  obtain ⟨now, nextId, held, area⟩ := w
  obtain ⟨now', nextId', held', area'⟩ := w'
  obtain ⟨rfl, rfl, -⟩ := h
  cases c <;> rfl

end Backend

/-! ## Under layers -/

def Note.key? : Note K V → Option K
  | .eviction _ => none
  | .call _ k => some k

def called (log : List (Note K V)) : List K := log.filterMap Note.key?

omit [DecidableEq K] in
theorem called_append (log log' : List (Note K V)) : called (log ++ log') = called log ++ called log' :=
  List.filterMap_append

omit [DecidableEq K] in
theorem called_evictions (events : List (Eviction K V)) :
    called (events.map Note.eviction) = [] := by
  unfold called
  rw [List.filterMap_map]
  exact List.filterMap_eq_nil_iff.2 fun _ _ => rfl

namespace Store

variable {w : World} {k : K} {s : Store K V}

/-- A look-up makes present what it asks for, which is no other key, and finds what was present or
what it asked for. -/
structure Seeks (w : World) (k : K) (s : Store K V) (out : Step (Store K V) (Note K V) (Found V)) :
    Prop where
  spares : s.backend.Spares (· ∈ called out.log) w out.state.backend out.world
  own : ∀ k' ∈ called out.log, k' = k
  found : ∀ value, out.answer = .ok (some value) →
    s.backend.contains w k = true ∨ k ∈ called out.log

theorem Seeks.bind {x : Step (Store K V) (Note K V) (Found V)}
    {f : Found V → Store K V → World → Step (Store K V) (Note K V) (Found V)} (h : Seeks w k s x)
    (hnext : Seeks x.world k x.state (f x.answer x.state x.world)) : Seeks w k s (x.bind f) := by
  have hlog : called (x.bind f).log = called x.log ++ called (f x.answer x.state x.world).log :=
    called_append _ _
  have hfirst : ∀ k', k' ∈ called x.log → k' ∈ called (x.bind f).log := by
    rw [hlog]
    exact fun _ => List.mem_append_left _
  have hrest : ∀ k', k' ∈ called (f x.answer x.state x.world).log → k' ∈ called (x.bind f).log := by
    rw [hlog]
    exact fun _ => List.mem_append_right _
  refine ⟨(h.spares.mono hfirst).trans (hnext.spares.mono hrest), fun k' hk' => ?_,
    fun value hvalue => ?_⟩
  · rw [hlog, List.mem_append] at hk'
    exact hk'.elim (h.own k') (hnext.own k')
  · rcases hnext.found value hvalue with hpresent | hasked
    · by_cases hk : k ∈ called x.log
      · exact .inr (hfirst k hk)
      · have hbefore := h.spares.contains x.world h.spares.around.now k hk hpresent
        exact .inl ((s.backend.contains_congr h.spares.around k).symm.trans hbefore)
    · exact .inr (hrest k hasked)

theorem seeks_backend (h : s.backend.Regular w) (k : K) : Seeks w k s (s.get w k []) := by
  have hlog : called (s.get w k []).log = [] := called_evictions _
  refine ⟨h.spares (.request (.get k)) rfl, ?_, fun value hvalue => .inl ?_⟩
  · rw [hlog]
    exact nofun
  · exact h.contains_of_get (Except.ok.inj hvalue)

theorem seeks_populate (h : s.backend.Regular w) (layer : Layer K V) (level : Nat) (k : K) :
    Seeks w k s (s.populate layer level w k) := by
  have hlog : called (s.populate layer level w k).log = [k] := by
    unfold populate
    dsimp only
    split
    · exact congrArg (k :: ·) (called_evictions _)
    · rfl
  refine ⟨?_, ?_, ?_⟩
  · rw [hlog]
    unfold populate
    dsimp only
    split
    · rename_i v _
      exact (h.spares_share k v).mono fun _ hk => List.mem_singleton.2 hk
    · exact .refl _ _ _
  · rw [hlog]
    exact fun _ => List.mem_singleton.1
  · rw [hlog]
    exact fun _ _ => .inr (List.mem_singleton_self k)

theorem Seeks.regular {out : Step (Store K V) (Note K V) (Found V)} (hseeks : Seeks w k s out)
    (h : s.backend.Regular w) : out.state.backend.Regular out.world := h.course hseeks.spares.course

theorem get_seeks (layers : List (Layer K V)) (h : s.backend.Regular w) (k : K) :
    Seeks w k s (s.get w k layers) := by
  induction layers generalizing s w with
  | nil => exact seeks_backend h k
  | cons layer below ih =>
    have hfirst := ih h
    have hsecond := ih (hfirst.regular h)
    have hdescends := get_descends layer below w k s
    generalize s.get w k (layer :: below) = out at hdescends ⊢
    cases hdescends with
    | found hfound => exact hfirst
    | asked hmode hmissed => exact hfirst.bind (seeks_populate (hfirst.regular h) layer _ k)
    | foundAgain hmode hmissed hfound => exact hfirst.bind hsecond
    | askedAgain hmode hmissed hagain =>
      have hlater := hsecond.regular (hfirst.regular h)
      exact hfirst.bind (hsecond.bind (seeks_populate hlater layer _ k))

theorem get_of_found (layers : List (Layer K V)) {value : Shared V}
    (hfound : (s.backend.get w k).answer = some value) : s.get w k layers = s.get w k [] := by
  induction layers with
  | nil => rfl
  | cons layer below ih =>
    have hbelow : (s.get w k below).answer = .ok (some value) := by
      rw [ih]
      exact congrArg Except.ok hfound
    rw [← ih]
    have hdescends := get_descends layer below w k s
    generalize s.get w k (layer :: below) = out at hdescends ⊢
    cases hdescends with
    | found hfound => rfl
    | asked hmode hmissed => rw [hbelow] at hmissed; cases hmissed
    | foundAgain hmode hmissed hfound => rw [hbelow] at hmissed; cases hmissed
    | askedAgain hmode hmissed hagain => rw [hbelow] at hmissed; cases hmissed

theorem called_get_eq_nil {layers : List (Layer K V)}
    (h : layers = [] ∨ ∃ value, (s.backend.get w k).answer = some value) :
    called (s.get w k layers).log = [] := by
  have hsame : s.get w k layers = s.get w k [] := by
    rcases h with rfl | ⟨value, hfound⟩
    · rfl
    · exact get_of_found layers hfound
  rw [hsame]
  exact called_evictions _

end Store

end CacheLayer
