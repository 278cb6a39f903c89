import CacheLayer.Proofs.Soft.Events

/-!
# How reclaimed entries leave a soft cache

An entry whose object died stays in the table until something drops it: a sweep of the keys that the
heap gave up, a look-up of its key, an insertion over it or a removal. The first two tell of it and
count it; an insertion counts itself; a removal of a dead entry leaves no trace.

* `purgeAll_eq` : purging drops the dead ones of the listed keys, each once, and tells of each once.
* `Drops` : what an operation drops, tells and counts; `drops_perform` : it is so of every operation
  but a removal and a closing.
* `TakesOut` : what a removal does instead.
* `Accounted` : how many insertions the entries and counters do not account for; by
  `Accounted.perform` and `Accounted.run` they are the overwritten and the overlooked entries.
* `entries_accounted` : the ledger of any run, and what the next operation may drop.
-/

namespace CacheLayer.Soft

variable {K : Type u} {V : Type v} [DecidableEq K] {c : Soft K V} {w : World} {k : K}

/-! ## What a purge drops -/

/-- An entry is stored under `k` and its object is dead. -/
def Dead (c : Soft K V) (w : World) (k : K) : Prop :=
  ∃ s, c.handles.get? k = some s ∧ c.alive w s = false

/-- The cache without the keys that are gone, each counted as reclaimed. -/
def without (c : Soft K V) (gone : List K) : Soft K V :=
  { c with
    handles := gone.foldl Table.erase c.handles
    metrics := { c.metrics with reclaimed := c.metrics.reclaimed + gone.length } }

omit [DecidableEq K] in
def reclaims (gone : List K) : List (Eviction K V) := gone.map fun k => ⟨k, none, .reclaimed⟩

theorem contains_eq_false_iff (c : Soft K V) (w : World) (k : K) :
    c.contains w k = false ↔ c.handles.get? k = none ∨ c.Dead w k := by
  unfold contains Dead
  cases c.handles.get? k with
  | none => simp
  | some s => simp

theorem dead_without (c : Soft K V) (w : World) (gone : List K) (k : K) :
    (c.without gone).Dead w k ↔ k ∉ gone ∧ c.Dead w k := by
  have hget : (c.without gone).handles.get? k = if k ∈ gone then none else c.handles.get? k :=
    Table.get?_foldl_erase gone c.handles k
  unfold Dead
  rw [hget]
  split
  · rename_i hk
    simp [hk]
  · rename_i hk
    simp only [hk, not_false_iff, true_and]
    rfl

theorem without_without (c : Soft K V) (k : K) (gone : List K) :
    (c.without [k]).without gone = c.without (k :: gone) := by
  unfold without
  simp only [List.foldl_cons, List.foldl_nil, List.length_cons, List.length_nil, Nat.zero_add,
    Nat.add_assoc, Nat.add_comm gone.length]

theorem purge_of_dead (h : c.Dead w k) :
    c.purge w k = ⟨(), c.without [k], reclaims [k]⟩ := by
  obtain ⟨s, hget, hdead⟩ := h
  unfold purge
  rw [hget]
  dsimp only
  rw [if_neg (by rw [hdead]; simp)]
  rfl

theorem purge_of_not_dead (h : ¬ c.Dead w k) : c.purge w k = ⟨(), c, []⟩ := by
  unfold purge
  split
  · rfl
  · rename_i s hget
    rw [if_pos]
    by_contra halive
    exact h ⟨s, hget, Bool.eq_false_iff.2 halive⟩

/-- Purging drops the dead ones of the listed keys, each once, however often it is listed. -/
theorem purgeAll_eq (ks : List K) (c : Soft K V) (w : World) :
    ∃ gone : List K, gone.Nodup ∧ gone.Sublist ks ∧ (∀ k, k ∈ gone ↔ k ∈ ks ∧ c.Dead w k) ∧
      c.purgeAll w ks = ⟨(), c.without gone, reclaims gone⟩ := by
  induction ks generalizing c with
  | nil => exact ⟨[], List.nodup_nil, .slnil, by simp, rfl⟩
  | cons k ks ih =>
    rw [purgeAll]
    by_cases hk : c.Dead w k
    · obtain ⟨gone, hnodup, hsub, hmem, hpurge⟩ := ih (c.without [k])
      rw [purge_of_dead hk]
      refine ⟨k :: gone, ?_, hsub.cons_cons k, fun k' => ?_, ?_⟩
      · refine List.nodup_cons.2 ⟨fun hgone => ?_, hnodup⟩
        exact ((c.dead_without w [k] k).1 ((hmem k).1 hgone).2).1 (List.mem_singleton_self k)
      · rw [List.mem_cons, hmem, dead_without, List.mem_singleton, List.mem_cons]
        by_cases hsame : k' = k
        · simp [hsame, hk]
        · simp [hsame]
      · dsimp only
        rw [hpurge, without_without]
        rfl
    · obtain ⟨gone, hnodup, hsub, hmem, hpurge⟩ := ih c
      rw [purge_of_not_dead hk]
      refine ⟨gone, hnodup, hsub.cons k, fun k' => ?_, ?_⟩
      · rw [hmem, List.mem_cons]
        constructor
        · exact fun h => ⟨.inr h.1, h.2⟩
        · rintro ⟨hsame | hlisted, hdead⟩
          · exact (hk (hsame ▸ hdead)).elim
          · exact ⟨hlisted, hdead⟩
      · dsimp only
        rw [hpurge]
        rfl

theorem purgeAll_concat (ks : List K) (c : Soft K V) (w : World) (k : K) :
    c.purgeAll w (ks ++ [k]) =
      let first := c.purgeAll w ks
      let last := first.cache.purge w k
      ⟨(), last.cache, first.events ++ last.events⟩ := by
  induction ks generalizing c with
  | nil =>
    show Change.mk () (c.purge w k).cache ((c.purge w k).events ++ []) = _
    rw [List.append_nil]
    rfl
  | cons k' ks ih =>
    rw [List.cons_append, purgeAll, ih, purgeAll]
    simp only [List.append_assoc]

/-- The cache with one more value, and nothing purged yet. -/
def takingIn (c : Soft K V) (k : K) (s : Shared V) : Soft K V :=
  { c with
    heap := (c.heap.retain k s).drain.2
    handles := c.handles.insert k s
    metrics := { c.metrics with inserts := c.metrics.inserts + 1 } }

theorem insert_eq_purgeAll (c : Soft K V) (w : World) (k : K) (s : Shared V) :
    c.insert w k s = (c.takingIn k s).purgeAll w (c.heap.retain k s).queue := rfl

/-- A look-up purges the keys that the heap gave up, and then its own. -/
theorem get_eq_purgeAll (c : Soft K V) (w : World) (k : K) :
    let purged := ({ c with heap := c.heap.drain.2 } : Soft K V).purgeAll w (c.heap.queue ++ [k])
    (c.get w k).events = purged.events ∧ (c.get w k).cache.handles = purged.cache.handles ∧
      (c.get w k).cache.metrics.reclaimed = purged.cache.metrics.reclaimed := by
  rw [purgeAll_concat]
  show _ = (c.sweep w).events ++ ((c.sweep w).cache.purge w k).events ∧
    _ = ((c.sweep w).cache.purge w k).cache.handles ∧
    _ = ((c.sweep w).cache.purge w k).cache.metrics.reclaimed
  have hkept (h : ¬ (c.sweep w).cache.Dead w k) := purge_of_not_dead h
  unfold get
  dsimp only
  cases hget : (c.sweep w).cache.handles.get? k with
  | none =>
    rw [hkept (by rintro ⟨s, hs, -⟩; rw [hget] at hs; cases hs), List.append_nil]
    exact ⟨rfl, rfl, rfl⟩
  | some s =>
    dsimp only
    split
    · rename_i halive
      rw [hkept, List.append_nil]
      · exact ⟨rfl, rfl, rfl⟩
      · rintro ⟨s', hs', hdead⟩
        rw [hget] at hs'
        rw [← Option.some.inj hs', halive] at hdead
        cases hdead
    · exact ⟨rfl, rfl, rfl⟩

/-! ## What an operation drops -/

def Op.entered (handles : Table K (Shared V)) : Op K V → Table K (Shared V)
  | .request (.insert k s) => handles.insert k s
  | _ => handles

/-- An operation drops the keys that are gone and no other: each was stored and its object is dead,
and of each there is one event, which says that it was reclaimed, and one count. -/
structure Drops (c : Soft K V) (w : World) (op : Op K V) (gone : List K) : Prop where
  nodup : gone.Nodup
  told : (c.perform w op).events = reclaims gone
  counted : (c.perform w op).cache.metrics.reclaimed = c.metrics.reclaimed + gone.length
  left : ∀ k, (c.perform w op).cache.handles.get? k =
    if k ∈ gone then none else (op.entered c.handles).get? k
  dead : ∀ k ∈ gone, ∃ s, (op.entered c.handles).get? k = some s ∧
    (c.perform w op).cache.alive w s = false

/-- A removal leaves the other entries in place and counts nothing as reclaimed. It tells of its key
if a live value was there, and says nothing otherwise. -/
structure TakesOut (c : Soft K V) (w : World) (k : K) : Prop where
  told : (c.remove w k).events.map Eviction.reason = if c.contains w k then [.removed] else []
  counted : (c.remove w k).cache.metrics.reclaimed = c.metrics.reclaimed
  left : ∀ k', (c.remove w k).cache.handles.get? k' =
    if k' = k then none else c.handles.get? k'

omit [DecidableEq K] in
theorem alive_congr {c c' : Soft K V} (h : c'.heap.retained = c.heap.retained) (w : World) :
    c'.alive w = c.alive w := by
  funext s
  unfold alive SoftHeap.alive SoftHeap.retains
  rw [h]

theorem drops_of_purgeAll {op : Op K V} (c' : Soft K V) (ks : List K)
    (hhandles : c'.handles = op.entered c.handles)
    (hreclaimed : c'.metrics.reclaimed = c.metrics.reclaimed)
    (hretained : (c.perform w op).cache.heap.retained = c'.heap.retained)
    (hpurged : (c.perform w op).events = (c'.purgeAll w ks).events ∧
      (c.perform w op).cache.handles = (c'.purgeAll w ks).cache.handles ∧
      (c.perform w op).cache.metrics.reclaimed = (c'.purgeAll w ks).cache.metrics.reclaimed) :
    ∃ gone, c.Drops w op gone := by
  obtain ⟨hevents, hleft, hcounted⟩ := hpurged
  obtain ⟨gone, hnodup, -, hmem, hpurge⟩ := purgeAll_eq ks c' w
  rw [hpurge] at hevents hleft hcounted
  refine ⟨gone, hnodup, hevents, ?_, fun k => ?_, fun k hk => ?_⟩
  · rw [hcounted, ← hreclaimed]
    rfl
  · rw [hleft, ← hhandles]
    exact Table.get?_foldl_erase gone c'.handles k
  · obtain ⟨s, hget, hdead⟩ := ((hmem k).1 hk).2
    exact ⟨s, hhandles ▸ hget, by rwa [alive_congr hretained]⟩

theorem drops_sweep {op : Op K V} (hentered : op.entered c.handles = c.handles)
    (hevents : (c.perform w op).events = (c.sweep w).events)
    (hcache : (c.perform w op).cache = (c.sweep w).cache) : ∃ gone, c.Drops w op gone := by
  refine drops_of_purgeAll { c with heap := c.heap.drain.2 } c.heap.queue hentered.symm rfl ?_
    ⟨hevents, congrArg _ hcache, congrArg (fun c => c.metrics.reclaimed) hcache⟩
  rw [hcache, heap_sweep]
  rfl

theorem drops_nothing {op : Op K V} (hevents : (c.perform w op).events = [])
    (hhandles : (c.perform w op).cache.handles = op.entered c.handles)
    (hmetrics : (c.perform w op).cache.metrics = c.metrics) : c.Drops w op [] where
  nodup := List.nodup_nil
  told := hevents
  counted := by rw [hmetrics]; rfl
  left k := by rw [hhandles, if_neg (List.not_mem_nil)]
  dead := nofun

/-- An operation but a removal and a closing drops dead entries alone, and tells of each. -/
theorem drops_perform (c : Soft K V) (w : World) {op : Op K V} (hclose : op ≠ .close)
    (hremove : ∀ k, op ≠ .request (.remove k)) : ∃ gone, c.Drops w op gone := by
  cases op with
  | request r =>
    cases r with
    | insert k s =>
      refine drops_of_purgeAll (c.takingIn k s) (c.heap.retain k s).queue rfl rfl ?_ ⟨rfl, rfl, rfl⟩
      show (c.insert w k s).cache.heap.retained = _
      rw [insert_eq_purgeAll, heap_purgeAll]
    | remove k => exact (hremove k rfl).elim
    | get k =>
      exact drops_of_purgeAll { c with heap := c.heap.drain.2 } (c.heap.queue ++ [k]) rfl rfl
        (retained_get c w k) (get_eq_purgeAll c w k)
    | contains k => exact ⟨[], drops_nothing rfl rfl rfl⟩
    | keys => exact drops_sweep rfl rfl rfl
    | size => exact drops_sweep rfl rfl rfl
  | close => exact (hclose rfl).elim
  | heap op => exact ⟨[], drops_nothing rfl rfl rfl⟩

theorem Tied.remove_cases (h : c.Tied) (w : World) (k : K) :
    (c.contains w k = true ∧ ∃ s, (c.remove w k).events = [⟨k, some s, .removed⟩] ∧
        (c.remove w k).cache.metrics = { c.metrics with removals := c.metrics.removals + 1 }) ∨
      (c.contains w k = false ∧ (c.remove w k).events = [] ∧
        (c.remove w k).cache.metrics = c.metrics) := by
  rw [← h.remove_answer]
  unfold Soft.remove
  dsimp only
  split
  · rename_i s _
    exact .inl ⟨rfl, s, rfl, rfl⟩
  · exact .inr ⟨rfl, rfl, rfl⟩

theorem Tied.takesOut (h : c.Tied) (w : World) (k : K) : c.TakesOut w k where
  told := by
    obtain ⟨hlive, s, hevents, -⟩ | ⟨hdead, hevents, -⟩ := h.remove_cases w k
    · rw [hevents, hlive]
      rfl
    · rw [hevents, hdead]
      rfl
  counted := by
    obtain ⟨-, s, -, hmetrics⟩ | ⟨-, -, hmetrics⟩ := h.remove_cases w k
    · rw [hmetrics]
    · rw [hmetrics]
  left k' := by
    rw [remove_cache]
    exact Table.get?_erase c.handles k k'

/-! ## The ledger -/

/-- Of the insertions so far, `n` are accounted for neither by an entry in the table nor by a counter. -/
def Accounted (c : Soft K V) (n : Nat) : Prop :=
  c.metrics.inserts = c.handles.size + c.metrics.removals + c.metrics.reclaimed + n

def Op.overwrites (handles : Table K (Shared V)) : Op K V → Nat
  | .request (.insert k _) => if handles.contains k then 1 else 0
  | _ => 0

/-- How many dead entries an operation takes out without a trace. -/
def overlooks (c : Soft K V) (w : World) : Op K V → Nat
  | .request (.remove k) => if c.handles.contains k && !c.contains w k then 1 else 0
  | _ => 0

def overwritten (c : Soft K V) : List (World × Op K V) → Nat
  | [] => 0
  | (w, op) :: turns => op.overwrites c.handles + (c.perform w op).cache.overwritten turns

def overlooked (c : Soft K V) : List (World × Op K V) → Nat
  | [] => 0
  | (w, op) :: turns => c.overlooks w op + (c.perform w op).cache.overlooked turns

theorem Accounted.purge {n : Nat} (h : c.Accounted n) (w : World) (k : K) :
    (c.purge w k).cache.Accounted n := by
  by_cases hk : c.Dead w k
  · obtain ⟨s, hget, -⟩ := id hk
    have hsize := Table.size_erase_add_one (Table.contains_of_get? hget)
    unfold Accounted at h ⊢
    rw [purge_of_dead hk]
    show c.metrics.inserts = (c.handles.erase k).size + c.metrics.removals +
      (c.metrics.reclaimed + 1) + n
    omega
  · rwa [purge_of_not_dead hk]

theorem Accounted.purgeAll {n : Nat} (h : c.Accounted n) (w : World) (ks : List K) :
    (c.purgeAll w ks).cache.Accounted n := by
  induction ks generalizing c with
  | nil => exact h
  | cons k ks ih => exact ih (h.purge w k)

theorem Accounted.sweep {n : Nat} (h : c.Accounted n) (w : World) :
    (c.sweep w).cache.Accounted n :=
  Accounted.purgeAll (c := { c with heap := c.heap.drain.2 }) h w _

theorem Accounted.insert {n : Nat} (h : c.Accounted n) (w : World) (k : K) (s : Shared V) :
    (c.insert w k s).cache.Accounted (n + Op.overwrites c.handles (.request (.insert k s))) := by
  refine Accounted.sweep ?_ w
  have hsize := c.handles.size_insert k s
  unfold Accounted at h ⊢
  show c.metrics.inserts + 1 = (c.handles.insert k s).size + c.metrics.removals +
    c.metrics.reclaimed + (n + if c.handles.contains k then 1 else 0)
  omega

theorem Accounted.remove {n : Nat} (h : c.Accounted n) (hc : c.Tied) (w : World) (k : K) :
    (c.remove w k).cache.Accounted (n + c.overlooks w (.request (.remove k))) := by
  have hhandles : (c.remove w k).cache.handles = c.handles.erase k := by rw [remove_cache]
  have hoverlooks : c.overlooks w (.request (.remove k)) =
      if c.handles.contains k && !c.contains w k then 1 else 0 := rfl
  unfold Accounted at h ⊢
  rw [hhandles, hoverlooks]
  obtain ⟨hlive, s, -, hmetrics⟩ | ⟨hgone, -, hmetrics⟩ := hc.remove_cases w k
  · have hstored : c.handles.contains k = true := by
      by_contra hnone
      have hnone := Table.get?_eq_none_of_contains (Bool.eq_false_iff.2 hnone)
      rw [(c.contains_eq_false_iff w k).2 (.inl hnone)] at hlive
      cases hlive
    have hsize := Table.size_erase_add_one hstored
    rw [hlive, Bool.not_true, Bool.and_false, if_neg Bool.false_ne_true, hmetrics]
    dsimp only
    omega
  · rw [hmetrics, hgone]
    cases hstored : c.handles.contains k with
    | true =>
      have hsize := Table.size_erase_add_one hstored
      rw [Bool.not_false, Bool.and_true, if_pos rfl]
      omega
    | false =>
      rw [Table.erase_of_not_contains hstored]
      exact h

theorem Accounted.get {n : Nat} (h : c.Accounted n) (w : World) (k : K) :
    (c.get w k).cache.Accounted n := by
  have hswept := h.sweep w
  unfold Soft.get
  dsimp only
  split
  · exact hswept
  · split
    · exact hswept
    · exact hswept.purge w k

theorem Accounted.perform {n : Nat} (h : c.Accounted n) (hc : c.Tied) (w : World) {op : Op K V}
    (hop : op ≠ .close) :
    (c.perform w op).cache.Accounted (n + op.overwrites c.handles + c.overlooks w op) := by
  cases op with
  | request r =>
    cases r with
    | insert k s => exact h.insert w k s
    | remove k => exact h.remove hc w k
    | get k => exact h.get w k
    | contains k => exact h
    | keys => exact h.sweep w
    | size => exact h.sweep w
  | close => exact (hop rfl).elim
  | heap op => exact h

theorem Accounted.run (turns : List (World × Op K V)) {n : Nat} (h : c.Accounted n) (hc : c.Tied)
    (hopen : ∀ turn ∈ turns, turn.2 ≠ .close) :
    (c.run turns).cache.Accounted (n + c.overwritten turns + c.overlooked turns) := by
  induction turns generalizing c n with
  | nil => exact h
  | cons turn turns ih =>
    have hfirst := h.perform hc turn.1 (hopen turn List.mem_cons_self)
    have hrest := ih hfirst (hc.perform turn.1 turn.2) fun turn' hturn' =>
      hopen turn' (List.mem_cons_of_mem _ hturn')
    have hsum : n + c.overwritten (turn :: turns) + c.overlooked (turn :: turns) =
        n + turn.2.overwrites c.handles + c.overlooks turn.1 turn.2 +
          (c.perform turn.1 turn.2).cache.overwritten turns +
          (c.perform turn.1 turn.2).cache.overlooked turns := by
      rw [overwritten, overlooked]
      omega
    rw [hsum]
    exact hrest

theorem reclaimed_run (turns : List (World × Op K V)) (c : Soft K V) :
    (c.run turns).cache.metrics.reclaimed =
      c.metrics.reclaimed + toldFor .reclaimed (c.run turns).events := by
  induction turns generalizing c with
  | nil => rfl
  | cons turn turns ih =>
    have hfirst : (c.perform turn.1 turn.2).cache.metrics.reclaimed =
        c.metrics.reclaimed + toldFor .reclaimed (c.perform turn.1 turn.2).events :=
      (c.tell_perform turn.1 turn.2).reclaimed
    show ((c.perform turn.1 turn.2).cache.run turns).cache.metrics.reclaimed = _
    rw [ih, hfirst, run, toldFor_append, Nat.add_assoc]

/-- In every run without a closing the insertions are the entries in the table, live or dead, the
removals, the reclaimed entries, the overwritten ones and the dead ones that a removal overlooked; and
what is counted as reclaimed was told. Whatever comes next, an operation but a removal tells of each
entry that it drops, once, and counts it; a removal tells of its own entry if that is live. -/
theorem entries_accounted {b : Builder} {w : World} {c : Soft K V} (hbuilt : b.buildSoft w = .ok c)
    (turns : List (World × Op K V)) (hopen : ∀ turn ∈ turns, turn.2 ≠ .close) :
    let out := c.run turns
    out.cache.metrics.inserts = out.cache.handles.size + out.cache.metrics.removals +
      out.cache.metrics.reclaimed + (c.overwritten turns + c.overlooked turns) ∧
    out.cache.metrics.reclaimed = toldFor .reclaimed out.events ∧
    (∀ w' op, op ≠ .close → (∀ k, op ≠ .request (.remove k)) →
      ∃ gone, out.cache.Drops w' op gone) ∧
    ∀ w' k, out.cache.TakesOut w' k := by
  have hmake := eq_make_of_built hbuilt
  have hstart : c.Accounted 0 := by
    rw [hmake]
    rfl
  have haccounted := hstart.run turns (tied_of_built hbuilt) hopen
  have hreclaimed := reclaimed_run turns c
  have hnone : c.metrics.reclaimed = 0 := by
    rw [hmake]
    rfl
  rw [hnone, Nat.zero_add] at hreclaimed
  rw [Nat.zero_add] at haccounted
  refine ⟨haccounted, hreclaimed,
    fun w' op hclose hremove => drops_perform _ w' hclose hremove,
    fun w' k => (tied_run turns (tied_of_built hbuilt)).takesOut w' k⟩

/-- Two entries die; the first is removed and the second looked up. -/
def mourning : List (World × Op Nat UInt8) :=
  [.request (.insert 1 ⟨0, 7⟩), .request (.insert 2 ⟨1, 8⟩), .heap .reclaimAll,
    .request (.remove 1), .request (.get 2)].map fun op => (⟨0, 2, [], .ofFiles []⟩, op)

/-- The look-up tells of the second entry; of the first one nobody hears. -/
theorem entries_accounted_mourning :
    let c : Soft Nat UInt8 := make "pair" 4 0
    let out := c.run mourning
    (∀ turn ∈ mourning, turn.2 ≠ .close) ∧ out.events = [⟨2, none, .reclaimed⟩] ∧
      c.overlooked mourning = 1 ∧
      out.cache.metrics.inserts = out.cache.handles.size + out.cache.metrics.removals +
        out.cache.metrics.reclaimed + (c.overwritten mourning + c.overlooked mourning) ∧
      out.cache.metrics.reclaimed = toldFor .reclaimed out.events := by
  have hbuilt : (Builder.ofConfig "pair" { softCapacity := some 4 }).buildSoft ⟨0, 2, [], .ofFiles []⟩ =
      .ok (make "pair" 4 0 : Soft Nat UInt8) := rfl
  have hopen : ∀ turn ∈ mourning, turn.2 ≠ .close := by
    simp [mourning]
  obtain ⟨hinserts, hreclaimed, -, -⟩ := entries_accounted hbuilt mourning hopen
  exact ⟨hopen, by decide, by decide, hinserts, hreclaimed⟩

/-- A removal may take out a dead entry that nothing told of before: the insertion is accounted for
neither by the table nor by a counter, and there is no event. -/
theorem removal_overlooks_dead :
    let c : Soft Nat UInt8 := make "pair" 4 0
    let turns : List (World × Op Nat UInt8) :=
      [.request (.insert 1 ⟨0, 7⟩), .heap .reclaimAll, .request (.remove 1)].map fun op =>
        (⟨0, 1, [], .ofFiles []⟩, op)
    let out := c.run turns
    (Builder.ofConfig "pair" { softCapacity := some 4 }).buildSoft ⟨0, 1, [], .ofFiles []⟩ = .ok c ∧
      (c.run (turns.take 2)).cache.handles.get? 1 = some ⟨0, 7⟩ ∧
      out.cache.handles.get? 1 = none ∧ out.events = [] ∧
      out.cache.metrics.inserts ≠ out.cache.handles.size + out.cache.metrics.removals +
        out.cache.metrics.reclaimed + c.overwritten turns :=
  ⟨rfl, by decide, by decide, by decide, by decide⟩

end CacheLayer.Soft
