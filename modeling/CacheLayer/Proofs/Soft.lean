import CacheLayer.Builder
import CacheLayer.Proofs.MapRequest
import CacheLayer.Proofs.SoftHeap

/-!
# The theory of the soft cache

What a soft cache shows of a key is `live?`, the handle stored under it as long as its object is
alive. Dropping dead entries, which the cache does now and then, does not show.

* `Tied` : the heap retains under a key nothing but the object stored there; `tied_run` : it is so
  after every run.
* `handles_perform`, `retained_perform` : nothing comes in but by an insertion.
* `get_answer`, `contains_eq` : what is answered is what is live.
* `Tied.remove_answer` : a removal says whether its key was present.
* `live?_remove`, `live?_remove_of_livesBy` : a removal spares other keys, except that an object which
  the heap retained under the removed key alone dies under all of them.
-/

namespace CacheLayer.Soft

variable {K : Type u} {V : Type v} [DecidableEq K]

/-! ## What is live -/

def live? (c : Soft K V) (w : World) (k : K) : Option (Shared V) :=
  (c.handles.get? k).filter (c.alive w)

theorem heap_purge (c : Soft K V) (w : World) (k : K) : (c.purge w k).cache.heap = c.heap := by
  unfold purge
  split
  · rfl
  · split <;> rfl

theorem heap_purgeAll (ks : List K) (c : Soft K V) (w : World) :
    (c.purgeAll w ks).cache.heap = c.heap := by
  induction ks generalizing c with
  | nil => rfl
  | cons k ks ih => exact (ih _).trans (c.heap_purge w k)

theorem filter_handles_purge {c : Soft K V} {w : World} {p : Shared V → Bool}
    (hp : ∀ s, p s = true → c.alive w s = true) (k k' : K) :
    ((c.purge w k).cache.handles.get? k').filter p = (c.handles.get? k').filter p := by
  unfold purge
  split
  · rfl
  · rename_i s hget
    split
    · rfl
    · rename_i hdead
      show ((c.handles.erase k).get? k').filter p = _
      rw [Table.get?_erase]
      split
      · rename_i hk
        rw [hk, hget, Option.filter_some, if_neg fun h => hdead (hp s h)]
        rfl
      · rfl

theorem filter_handles_purgeAll (ks : List K) {c : Soft K V} {w : World} {p : Shared V → Bool}
    (hp : ∀ s, p s = true → c.alive w s = true) (k : K) :
    ((c.purgeAll w ks).cache.handles.get? k).filter p = (c.handles.get? k).filter p := by
  induction ks generalizing c with
  | nil => rfl
  | cons k' ks ih =>
    have hsame : (c.purge w k').cache.alive w = c.alive w := by
      unfold alive
      rw [heap_purge]
    rw [← filter_handles_purge hp k' k]
    exact ih (by rwa [hsame])

theorem live?_purgeAll (ks : List K) (c : Soft K V) (w : World) (k : K) :
    (c.purgeAll w ks).cache.live? w k = c.live? w k := by
  have hsame : (c.purgeAll w ks).cache.alive w = c.alive w := by
    unfold alive
    rw [heap_purgeAll]
  unfold live?
  rw [hsame]
  exact filter_handles_purgeAll ks (fun _ h => h) k

theorem live?_sweep (c : Soft K V) (w : World) (k : K) :
    (c.sweep w).cache.live? w k = c.live? w k := live?_purgeAll _ _ w k

theorem get_answer (c : Soft K V) (w : World) (k : K) : (c.get w k).answer = c.live? w k := by
  rw [← c.live?_sweep w k]
  unfold get live?
  dsimp only
  cases hget : (c.sweep w).cache.handles.get? k with
  | none => rfl
  | some s =>
    rw [Option.filter_some]
    cases halive : (c.sweep w).cache.alive w s with
    | true => simp [halive]
    | false => simp [halive]

theorem contains_eq (c : Soft K V) (w : World) (k : K) :
    c.contains w k = (c.live? w k).isSome := by
  unfold contains live?
  cases c.handles.get? k with
  | none => rfl
  | some s =>
    rw [Option.filter_some]
    cases halive : c.alive w s with
    | true => simp [halive]
    | false => simp [halive]

/-! ## Handles and the heap -/

/-- What the heap retains under a key is the object stored there. -/
def Tied (c : Soft K V) : Prop :=
  ∀ k s, c.heap.retained.get? k = some s → c.handles.get? k = some s

theorem Tied.withHeap {c : Soft K V} (h : c.Tied) {heap : SoftHeap K V} (hheap : heap.Within c.heap)
    (m : Metrics) : Tied { c with heap, metrics := m } := fun k s hget => h k s (hheap k s hget)

/-- What the heap retains is alive, so it is not purged. -/
theorem Tied.purge {c : Soft K V} (h : c.Tied) (w : World) (k : K) : (c.purge w k).cache.Tied := by
  unfold Soft.purge
  split
  · exact h
  · rename_i s hstored
    split
    · exact h
    · rename_i hdead
      intro k' s' hget
      have hstored' := h k' s' hget
      show (c.handles.erase k).get? k' = some s'
      rw [Table.get?_erase]
      split
      · rename_i hk
        rw [hk, hstored] at hstored'
        obtain rfl := Option.some.inj hstored'
        exact (hdead (SoftHeap.alive_of_retained hget w)).elim
      · exact hstored'

theorem Tied.purgeAll {c : Soft K V} (h : c.Tied) (w : World) (ks : List K) :
    (c.purgeAll w ks).cache.Tied := by
  induction ks generalizing c with
  | nil => exact h
  | cons k ks ih => exact ih (h.purge w k)

theorem Tied.sweep {c : Soft K V} (h : c.Tied) (w : World) : (c.sweep w).cache.Tied :=
  Tied.purgeAll (h.withHeap (c.heap.apply_within .drain) c.metrics) w _

theorem Tied.insert {c : Soft K V} (h : c.Tied) (w : World) (k : K) (value : Shared V) :
    (c.insert w k value).cache.Tied := by
  unfold Soft.insert
  refine Tied.sweep (fun k' s' hget => ?_) w
  have hretained := SoftHeap.retained_retain hget
  show (c.handles.insert k value).get? k' = some s'
  rw [Table.get?_insert]
  split
  · rename_i hk
    rwa [if_pos hk] at hretained
  · rename_i hk
    rw [if_neg hk] at hretained
    exact h k' s' hretained

theorem remove_cache (c : Soft K V) (w : World) (k : K) :
    (c.remove w k).cache = { c with
      handles := c.handles.erase k
      heap := (c.heap.release k).2
      metrics := (c.remove w k).cache.metrics } := by
  unfold remove
  dsimp only
  split <;> rfl

theorem Tied.remove {c : Soft K V} (h : c.Tied) (w : World) (k : K) :
    (c.remove w k).cache.Tied := by
  rw [remove_cache]
  intro k' s hget
  have hget : (c.heap.retained.erase k).get? k' = some s := hget
  show (c.handles.erase k).get? k' = some s
  rw [Table.get?_erase] at hget ⊢
  split
  · rename_i hk
    rw [if_pos hk] at hget
    cases hget
  · rename_i hk
    rw [if_neg hk] at hget
    exact h k' s hget

theorem Tied.get {c : Soft K V} (h : c.Tied) (w : World) (k : K) : (c.get w k).cache.Tied := by
  have hswept := h.sweep w
  unfold Soft.get
  dsimp only
  split
  · exact hswept.withHeap (.refl _) _
  · split
    · exact hswept.withHeap (SoftHeap.apply_within _ (.touch k)) _
    · exact (hswept.purge w k).withHeap (.refl _) _

theorem Tied.close {c : Soft K V} : c.close.Tied := nofun

/-! ## Runs -/

inductive Op (K : Type u) (V : Type v) where
  | request (r : MapRequest K (Shared V))
  | close
  /-- Somebody else works on the heap. -/
  | heap (op : SoftHeap.Op K)

def serve (c : Soft K V) (w : World) :
    MapRequest K (Shared V) → Change K V (MapReply K (Shared V))
  | .insert k value => let out := c.insert w k value; ⟨.done, out.cache, out.events⟩
  | .remove k => let out := c.remove w k; ⟨.truth out.answer, out.cache, out.events⟩
  | .get k => let out := c.get w k; ⟨.value out.answer, out.cache, out.events⟩
  | .contains k => ⟨.truth (c.contains w k), c, []⟩
  | .keys => let out := c.keys w; ⟨.keys out.answer, out.cache, out.events⟩
  | .size => let out := c.keys w; ⟨.count out.answer.length, out.cache, out.events⟩

def perform (c : Soft K V) (w : World) : Op K V → Change K V (MapReply K (Shared V))
  | .request r => c.serve w r
  | .close => ⟨.done, c.close, []⟩
  | .heap op => ⟨.done, { c with heap := c.heap.apply op }, []⟩

/-- Takes a cache through what happens. Each time the world may be another one, in which others hold
other objects. -/
def run (c : Soft K V) : List (World × Op K V) → Change K V (List (MapReply K (Shared V)))
  | [] => ⟨[], c, []⟩
  | (w, op) :: turns =>
    let first := c.perform w op
    let rest := first.cache.run turns
    ⟨first.answer :: rest.answer, rest.cache, first.events ++ rest.events⟩

theorem Tied.perform {c : Soft K V} (h : c.Tied) (w : World) (op : Op K V) :
    (c.perform w op).cache.Tied := by
  cases op with
  | request r =>
    cases r with
    | insert k value => exact h.insert w k value
    | remove k => exact h.remove w k
    | get k => exact h.get w k
    | contains k => exact h
    | keys => exact h.sweep w
    | size => exact h.sweep w
  | close => exact Tied.close
  | heap op => exact h.withHeap (c.heap.apply_within op) c.metrics

theorem tied_run (turns : List (World × Op K V)) {c : Soft K V} (h : c.Tied) :
    (c.run turns).cache.Tied := by
  induction turns generalizing c with
  | nil => exact h
  | cons turn turns ih => exact ih (h.perform turn.1 turn.2)

omit [DecidableEq K] in
theorem eq_make_of_built {b : Builder} {w : World} {c : Soft K V} (h : b.buildSoft w = .ok c) :
    c = make b.name (b.config.softCapacity.getD defaultSoftCapacity) w.now := by
  unfold Builder.buildSoft at h
  cases hvalid : b.validate .softReference with
  | error e =>
    rw [hvalid] at h
    cases h
  | ok u =>
    rw [hvalid] at h
    exact (Except.ok.inj h).symm

theorem tied_of_built {b : Builder} {w : World} {c : Soft K V} (h : b.buildSoft w = .ok c) :
    c.Tied := by
  rw [eq_make_of_built h]
  exact nofun

/-! ## What an operation leaves -/

section

variable {c : Soft K V} {w : World} {k : K} {o : Shared V}

theorem handles_purge {k' : K} (h : (c.purge w k').cache.handles.get? k = some o) :
    c.handles.get? k = some o := by
  unfold purge at h
  split at h
  · exact h
  · split at h
    · exact h
    · rw [Table.get?_erase] at h
      split at h
      · cases h
      · exact h

theorem handles_sweep (h : (c.sweep w).cache.handles.get? k = some o) :
    c.handles.get? k = some o := by
  have hall : ∀ (ks : List K) (c : Soft K V), (c.purgeAll w ks).cache.handles.get? k = some o →
      c.handles.get? k = some o := by
    intro ks
    induction ks with
    | nil => exact fun _ h => h
    | cons k' ks ih => exact fun c h => handles_purge (ih _ h)
  exact hall _ { c with heap := c.heap.drain.2 } h

theorem heap_sweep (c : Soft K V) (w : World) :
    (c.sweep w).cache.heap = { c.heap with queue := [] } := heap_purgeAll _ _ w

theorem alive_sweep (c : Soft K V) (w : World) : (c.sweep w).cache.alive w = c.alive w := by
  unfold alive
  rw [heap_sweep]
  rfl

theorem filter_handles_sweep {p : Shared V → Bool} (hp : ∀ s, p s = true → c.alive w s = true)
    (k : K) : ((c.sweep w).cache.handles.get? k).filter p = (c.handles.get? k).filter p :=
  filter_handles_purgeAll _ (c := { c with heap := c.heap.drain.2 }) hp k

/-- A look-up touches a live key or purges a dead one, after its sweep. -/
theorem get_cases (c : Soft K V) (w : World) (k : K) :
    ∃ order m, (c.get w k).cache =
        { (c.sweep w).cache with heap := { (c.sweep w).cache.heap with order }, metrics := m } ∨
      (c.get w k).cache = { ((c.sweep w).cache.purge w k).cache with metrics := m } := by
  unfold get
  dsimp only
  split
  · exact ⟨_, _, .inl rfl⟩
  · split
    · exact ⟨_, _, .inl rfl⟩
    · exact ⟨(c.sweep w).cache.heap.order, _, .inr rfl⟩

theorem retained_get (c : Soft K V) (w : World) (k : K) :
    (c.get w k).cache.heap.retained = c.heap.retained := by
  obtain ⟨order, m, hget | hget⟩ := c.get_cases w k
  · rw [hget, heap_sweep]
  · rw [hget, heap_purge, heap_sweep]

theorem handles_get {k' : K} (h : (c.get w k').cache.handles.get? k = some o) :
    c.handles.get? k = some o := by
  obtain ⟨order, m, hget | hget⟩ := c.get_cases w k'
  · rw [hget] at h
    exact handles_sweep h
  · rw [hget] at h
    exact handles_sweep (handles_purge h)

theorem filter_handles_get {p : Shared V → Bool} (hp : ∀ s, p s = true → c.alive w s = true)
    (k k' : K) : ((c.get w k').cache.handles.get? k).filter p = (c.handles.get? k).filter p := by
  rw [← filter_handles_sweep hp]
  obtain ⟨order, m, hget | hget⟩ := c.get_cases w k'
  · rw [hget]
  · rw [hget]
    exact filter_handles_purge (by rwa [alive_sweep]) k' k

theorem handles_perform {op : Op K V} (h : (c.perform w op).cache.handles.get? k = some o) :
    c.handles.get? k = some o ∨ op = .request (.insert k o) := by
  cases op with
  | request r =>
    cases r with
    | insert k' o' =>
      have hinserted : (c.handles.insert k' o').get? k = some o := handles_sweep h
      rw [Table.get?_insert] at hinserted
      split at hinserted
      · rename_i hk
        rw [hk, Option.some.inj hinserted]
        exact .inr rfl
      · exact .inl hinserted
    | remove k' =>
      have herased : (c.remove w k').cache.handles.get? k = some o := h
      rw [remove_cache] at herased
      have herased : (c.handles.erase k').get? k = some o := herased
      rw [Table.get?_erase] at herased
      split at herased
      · cases herased
      · exact .inl herased
    | get k' => exact .inl (handles_get h)
    | contains k' => exact .inl h
    | keys => exact .inl (handles_sweep h)
    | size => exact .inl (handles_sweep h)
  | close => cases h
  | heap op => exact .inl h

theorem retained_perform {op : Op K V} (h : (c.perform w op).cache.heap.retained.get? k = some o) :
    c.heap.retained.get? k = some o ∨ op = .request (.insert k o) := by
  cases op with
  | request r =>
    cases r with
    | insert k' o' =>
      have hswept : ((c.heap.retain k' o').retained).get? k = some o := by
        have h : (Soft.sweep _ w).cache.heap.retained.get? k = some o := h
        rwa [heap_sweep] at h
      have hretained := SoftHeap.retained_retain hswept
      split at hretained
      · rename_i hk
        rw [hk, Option.some.inj hretained]
        exact .inr rfl
      · exact .inl hretained
    | remove k' =>
      have hreleased : (c.remove w k').cache.heap.retained.get? k = some o := h
      rw [remove_cache] at hreleased
      exact .inl (c.heap.apply_within (.release k') k o hreleased)
    | get k' =>
      have h : (c.get w k').cache.heap.retained.get? k = some o := h
      rw [retained_get] at h
      exact .inl h
    | contains k' => exact .inl h
    | keys =>
      have h : (c.sweep w).cache.heap.retained.get? k = some o := h
      rw [heap_sweep] at h
      exact .inl h
    | size =>
      have h : (c.sweep w).cache.heap.retained.get? k = some o := h
      rw [heap_sweep] at h
      exact .inl h
  | close => cases h
  | heap op => exact .inl (c.heap.apply_within op k o h)

theorem given_of_remove (h : o ∈ (c.remove w k).events.filterMap Eviction.value) :
    c.heap.retained.get? k = some o ∨ c.handles.get? k = some o ∧ c.alive w o = true := by
  have hgiven : ((c.heap.retained.get? k).or
      ((c.handles.get? k).filter ((c.heap.release k).2.alive w))) = some o := by
    unfold remove at h
    dsimp only at h
    split at h
    · rename_i s hs
      have heq : o = s := by simpa using h
      rw [heq]
      exact hs
    · simp at h
  rcases Option.or_eq_some_iff.1 hgiven with hstrong | ⟨-, hhandle⟩
  · exact .inl hstrong
  · obtain ⟨hstored, halive⟩ := Option.filter_eq_some_iff.1 hhandle
    refine .inr ⟨hstored, ?_⟩
    rw [SoftHeap.alive_release] at halive
    refine (c.heap.alive_iff w o).2 (halive.imp_left ?_)
    rintro ⟨k', s', -, hretained, hid⟩
    exact ⟨k', s', hretained, hid⟩

theorem soundHeap_perform (h : c.heap.Sound) (op : Op K V) :
    (c.perform w op).cache.heap.Sound ∧ (c.perform w op).cache.heap.capacity = c.heap.capacity := by
  have hswept : (c.sweep w).cache.heap.Sound ∧ (c.sweep w).cache.heap.capacity = c.heap.capacity := by
    rw [heap_sweep]
    exact ⟨h.drain, rfl⟩
  cases op with
  | request r =>
    cases r with
    | insert k' o' =>
      show (Soft.sweep _ w).cache.heap.Sound ∧ (Soft.sweep _ w).cache.heap.capacity = c.heap.capacity
      rw [heap_sweep]
      exact ⟨(h.retain k' o').1.drain, (h.retain k' o').2⟩
    | remove k' =>
      show (c.remove w k').cache.heap.Sound ∧ (c.remove w k').cache.heap.capacity = _
      rw [remove_cache]
      exact h.apply (.release k')
    | get k' =>
      show (c.get w k').cache.heap.Sound ∧ (c.get w k').cache.heap.capacity = _
      unfold get
      dsimp only
      split
      · exact hswept
      · split
        · exact ⟨hswept.1.touch k', hswept.2⟩
        · rw [heap_purge]
          exact hswept
    | contains k' => exact ⟨h, rfl⟩
    | keys => exact hswept
    | size => exact hswept
  | close => exact ⟨SoftHeap.sound_ofCapacity _, rfl⟩
  | heap op => exact h.apply op

end

/-! ## Removing -/

theorem Tied.remove_answer {c : Soft K V} (h : c.Tied) (w : World) (k : K) :
    (c.remove w k).answer = c.contains w k := by
  have hanswer : (c.remove w k).answer = ((c.heap.retained.get? k).or
      ((c.handles.get? k).filter ((c.heap.release k).2.alive w))).isSome := by
    unfold Soft.remove
    dsimp only
    split
    · rename_i s hs
      exact (congrArg Option.isSome hs).symm
    · rename_i hs
      exact (congrArg Option.isSome hs).symm
  rw [hanswer, contains_eq, live?]
  cases hretained : c.heap.retained.get? k with
  | some s =>
    have halive : c.alive w s = true := SoftHeap.alive_of_retained hretained w
    have hlive : (some s).filter (c.alive w) = some s := if_pos halive
    rw [h k s hretained, hlive]
    rfl
  | none =>
    have hsame : (c.heap.release k).2.retained = c.heap.retained :=
      Table.erase_of_not_contains (by simp [Table.contains, hretained])
    have halive : (c.heap.release k).2.alive w = c.alive w := by
      funext s
      unfold alive SoftHeap.alive SoftHeap.retains
      rw [hsame]
    rw [halive]
    rfl

/-- The object stored under `k'` is one that the heap retains under `k` and under no other key, and
nobody outside holds it. -/
def LivesBy (c : Soft K V) (w : World) (k k' : K) : Prop :=
  ∃ s s', c.heap.retained.get? k = some s ∧ c.handles.get? k' = some s' ∧ s'.id = s.id ∧
    w.holds s.id = false ∧
    ∀ k'' s'', k'' ≠ k → c.heap.retained.get? k'' = some s'' → s''.id ≠ s.id

theorem live?_remove_self (c : Soft K V) (w : World) (k : K) :
    (c.remove w k).cache.live? w k = none := by
  rw [remove_cache]
  show ((c.handles.erase k).get? k).filter _ = none
  rw [Table.get?_erase, if_pos rfl]
  rfl

theorem live?_remove_of_ne (c : Soft K V) (w : World) {k k' : K} (hk : k' ≠ k) :
    (c.remove w k).cache.live? w k' =
      (c.handles.get? k').filter ((c.heap.release k).2.alive w) := by
  rw [remove_cache]
  show ((c.handles.erase k).get? k').filter _ = _
  rw [Table.get?_erase, if_neg hk]
  rfl

theorem live?_remove {c : Soft K V} {w : World} {k k' : K} (hk : k' ≠ k)
    (hspared : ¬ c.LivesBy w k k') : (c.remove w k).cache.live? w k' = c.live? w k' := by
  rw [live?_remove_of_ne c w hk, live?]
  cases hstored : c.handles.get? k' with
  | none => rfl
  | some s' =>
    have hsame : (c.heap.release k).2.alive w s' = c.alive w s' := by
      rw [Bool.eq_iff_iff, SoftHeap.alive_release, alive, SoftHeap.alive_iff]
      constructor
      · rintro (⟨k'', s'', -, hretained, hid⟩ | hheld)
        · exact .inl ⟨k'', s'', hretained, hid⟩
        · exact .inr hheld
      · rintro (⟨k'', s'', hretained, hid⟩ | hheld)
        · by_contra hdead
          obtain ⟨hothers, hnot⟩ := not_or.1 hdead
          have hkey : k'' = k := by
            by_contra hne
            exact hothers ⟨k'', s'', hne, hretained, hid⟩
          refine hspared ⟨s'', s', hkey ▸ hretained, hstored, hid.symm, ?_, fun k₀ s₀ hne hget => ?_⟩
          · rw [hid]
            exact Bool.eq_false_iff.2 hnot
          · rw [hid]
            exact fun hid₀ => hothers ⟨k₀, s₀, hne, hget, hid₀⟩
        · exact .inr hheld
    rw [Option.filter_some, Option.filter_some, hsame]

theorem live?_remove_of_livesBy {c : Soft K V} {w : World} {k k' : K}
    (hlives : c.LivesBy w k k') : (c.remove w k).cache.live? w k' = none := by
  obtain ⟨s, s', hretained, hstored, hid, hheld, hothers⟩ := hlives
  by_cases hk : k' = k
  · rw [hk]
    exact c.live?_remove_self w k
  · have hdead : (c.heap.release k).2.alive w s' = false := by
      rw [← Bool.not_eq_true, SoftHeap.alive_release]
      rintro (⟨k'', s'', hne, hget, hid'⟩ | hholds)
      · exact hothers k'' s'' hne hget (hid'.trans hid)
      · rw [hid, hheld] at hholds
        cases hholds
    rw [live?_remove_of_ne c w hk, hstored, Option.filter_some, if_neg (by rw [hdead]; simp)]

end CacheLayer.Soft
