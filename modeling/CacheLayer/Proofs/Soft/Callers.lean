import CacheLayer.Proofs.Soft
import Mathlib.Data.List.Induction

/-!
# A soft cache among its callers

Objects live as long as somebody holds them: the heap, under any key, or a caller. Callers make
objects, store them under as many keys as they like, keep or drop what the cache and its heap hand out,
and put the heap under pressure.

* `entrusted` : the object that was last stored under a key, and `entrusted_eq_some_iff`.
* `Scene`, `Act`, `Scene.run` : what callers do, and what they hold after it.
* `Scene.Sound` : what is live is what was entrusted and is held; `Scene.Sound.act` : every act keeps it.
* `live_while_held` : so a look-up finds a key exactly while its object is held.
-/

namespace CacheLayer.Soft

variable {K : Type u} {V : Type v} [DecidableEq K]

/-! ## What was entrusted -/

/-- The operation stores nothing under `k` and takes nothing away from it. -/
def Op.Spares (op : Op K V) (k : K) : Prop :=
  op ≠ .close ∧ op ≠ .request (.remove k) ∧ ∀ o, op ≠ .request (.insert k o)

/-- `o` was stored under `k`, which was spared since. -/
def LastStored (k : K) (o : Shared V) (log : List (Op K V)) : Prop :=
  ∃ before after, log = before ++ .request (.insert k o) :: after ∧ ∀ op ∈ after, op.Spares k

/-- What is entrusted under `k` after an operation. -/
def entrust (k : K) (last : Option (Shared V)) : Op K V → Option (Shared V)
  | .request (.insert k' o) => if k = k' then some o else last
  | .request (.remove k') => if k = k' then none else last
  | .close => none
  | _ => last

/-- The object that was last stored under `k`, unless it was taken away since. -/
def entrusted (k : K) (log : List (Op K V)) : Option (Shared V) := log.foldl (entrust k) none

theorem entrusted_concat (k : K) (log : List (Op K V)) (op : Op K V) :
    entrusted k (log ++ [op]) = entrust k (entrusted k log) op := List.foldl_concat ..

theorem entrust_of_spares {k : K} {op : Op K V} (h : op.Spares k) (last : Option (Shared V)) :
    entrust k last op = last := by
  obtain ⟨hclose, hremove, hinsert⟩ := h
  cases op with
  | request r =>
    cases r with
    | insert k' o =>
      have hk : k ≠ k' := fun hk => hinsert o (by rw [hk])
      exact if_neg hk
    | remove k' =>
      have hk : k ≠ k' := fun hk => hremove (by rw [hk])
      exact if_neg hk
    | _ => rfl
  | close => exact (hclose rfl).elim
  | heap op => rfl

theorem foldl_entrust_of_spares {k : K} {ops : List (Op K V)} (h : ∀ op ∈ ops, op.Spares k)
    (last : Option (Shared V)) : ops.foldl (entrust k) last = last := by
  induction ops with
  | nil => rfl
  | cons op ops ih =>
    rw [List.foldl_cons, entrust_of_spares (h op (by simp))]
    exact ih fun op' hop' => h op' (List.mem_cons_of_mem op hop')

theorem entrust_eq_some {k : K} {op : Op K V} {last : Option (Shared V)} {o : Shared V}
    (h : entrust k last op = some o) :
    op = .request (.insert k o) ∨ last = some o ∧ op.Spares k := by
  cases op with
  | request r =>
    cases r with
    | insert k' o' =>
      have h : (if k = k' then some o' else last) = some o := h
      split at h
      · rename_i hk
        rw [hk, Option.some.inj h]
        exact .inl rfl
      · rename_i hk
        refine .inr ⟨h, nofun, nofun, fun o heq => hk ?_⟩
        injection heq with heq
        injection heq with hkey
        exact hkey.symm
    | remove k' =>
      have h : (if k = k' then none else last) = some o := h
      split at h
      · cases h
      · rename_i hk
        refine .inr ⟨h, nofun, fun heq => hk ?_, nofun⟩
        injection heq with heq
        injection heq with hkey
        exact hkey.symm
    | _ => exact .inr ⟨h, nofun, nofun, nofun⟩
  | close => cases h
  | heap op => exact .inr ⟨h, nofun, nofun, nofun⟩

theorem entrusted_eq_some_iff (k : K) (o : Shared V) (log : List (Op K V)) :
    entrusted k log = some o ↔ LastStored k o log := by
  constructor
  · intro h
    induction log using List.reverseRecOn with
    | nil => cases h
    | append_singleton log op ih =>
      rw [entrusted_concat] at h
      rcases entrust_eq_some h with rfl | ⟨hlast, hspares⟩
      · exact ⟨log, [], rfl, nofun⟩
      · obtain ⟨before, after, rfl, hafter⟩ := ih hlast
        refine ⟨before, after ++ [op], by simp, fun op' hop' => ?_⟩
        rcases List.mem_append.1 hop' with hold | hnew
        · exact hafter op' hold
        · rw [List.mem_singleton.1 hnew]
          exact hspares
  · rintro ⟨before, after, rfl, hafter⟩
    have hstored : entrust k (entrusted k before) (.request (.insert k o)) = some o := if_pos rfl
    rw [entrusted, List.foldl_append, List.foldl_cons, foldl_entrust_of_spares hafter]
    exact hstored

/-! ## Callers -/

/-- A cache, the objects that its callers hold, each as often as it is held, and what happened to the
cache so far. -/
structure Scene (K : Type u) (V : Type v) where
  cache : Soft K V
  world : World
  owned : List (Shared V)
  log : List (Op K V)

/-- What callers do. Where they are given an object, they may keep it. -/
inductive Act (K : Type u) (V : Type v) where
  /-- Somebody makes an object. -/
  | make (value : V)
  /-- The holder of the `i`-th object lets go of it. -/
  | drop (i : Nat)
  /-- The holder of the `i`-th object stores it under `k` and goes on holding it or not. -/
  | insert (k : K) (i : Nat) (keep : Bool)
  | get (k : K) (keep : Bool)
  /-- Who is told of the removal may keep the object. -/
  | remove (k : K) (keep : Bool)
  | contains (k : K)
  | keys
  | size
  | close
  | release (k : K) (keep : Bool)
  | heap (op : SoftHeap.Op K)

namespace Scene

variable {s : Scene K V} {contents : Nat → Option V} {capacity : Nat}

omit [DecidableEq K] in
def around (s : Scene K V) (owned : List (Shared V)) : World :=
  { s.world with held := owned.map Shared.id }

/-- An operation while callers hold the first objects, after which they hold the second. -/
def turn (s : Scene K V) (op : Op K V) (during after : List (Shared V)) : Scene K V :=
  { s with
    cache := (s.cache.perform (s.around during) op).cache
    owned := after
    log := s.log ++ [op] }

def keeping (s : Scene K V) (keep : Bool) (given : List (Shared V)) : List (Shared V) :=
  if keep then s.owned ++ given else s.owned

def act (s : Scene K V) : Act K V → Scene K V
  | .make value =>
    let made := s.world.share value
    { s with world := made.2, owned := s.owned ++ [made.1] }
  | .drop i => { s with owned := s.owned.eraseIdx i }
  | .insert k i keep =>
    match s.owned[i]? with
    | some o =>
      let left := if keep then s.owned else s.owned.eraseIdx i
      s.turn (.request (.insert k o)) left left
    | none => s
  | .get k keep =>
    s.turn (.request (.get k)) s.owned
      (s.keeping keep (s.cache.get (s.around s.owned) k).answer.toList)
  | .remove k keep =>
    s.turn (.request (.remove k)) s.owned
      (s.keeping keep ((s.cache.remove (s.around s.owned) k).events.filterMap Eviction.value))
  | .contains k => s.turn (.request (.contains k)) s.owned s.owned
  | .keys => s.turn (.request .keys) s.owned s.owned
  | .size => s.turn (.request .size) s.owned s.owned
  | .close => s.turn .close s.owned s.owned
  | .release k keep =>
    s.turn (.heap (.release k)) s.owned (s.keeping keep (s.cache.heap.release k).1.toList)
  | .heap op => s.turn (.heap op) s.owned s.owned

def run (s : Scene K V) (acts : List (Act K V)) : Scene K V := acts.foldl act s

/-- The object is held: the heap retains it, or it is a caller's. -/
def Held (s : Scene K V) (o : Shared V) : Prop :=
  (∃ k, s.cache.heap.retained.get? k = some o) ∨ o ∈ s.owned

/-- The objects that occur: callers' ones, those with a handle and those entrusted. -/
def Occurs (s : Scene K V) (o : Shared V) : Prop :=
  o ∈ s.owned ∨ (∃ k, s.cache.handles.get? k = some o) ∨ ∃ k, entrusted k s.log = some o

def alive (s : Scene K V) : Shared V → Bool := s.cache.alive (s.around s.owned)

/-- Identities tell objects apart, and what is live is what was entrusted and is alive. -/
structure Sound (capacity : Nat) (contents : Nat → Option V) (s : Scene K V) : Prop where
  tied : s.cache.Tied
  heap : s.cache.heap.Sound
  capacity : s.cache.heap.capacity = capacity
  named : ∀ o, s.Occurs o → contents o.id = some o.value ∧ o.id < s.world.nextId
  live : ∀ k, (s.cache.handles.get? k).filter s.alive = (entrusted k s.log).filter s.alive

omit [DecidableEq K] in
theorem holds_around (s : Scene K V) (owned : List (Shared V)) (id : Nat) :
    (s.around owned).holds id = true ↔ ∃ o ∈ owned, o.id = id := by
  simp [around, World.holds]

theorem alive_iff (s : Scene K V) (o : Shared V) :
    s.alive o = true ↔
      (∃ k o', s.cache.heap.retained.get? k = some o' ∧ o'.id = o.id) ∨
        ∃ o' ∈ s.owned, o'.id = o.id := by
  rw [← holds_around]
  exact SoftHeap.alive_iff s.cache.heap (s.around s.owned) o

theorem alive_of_owned {o : Shared V} (h : o ∈ s.owned) : s.alive o = true :=
  (s.alive_iff o).2 (.inr ⟨o, h, rfl⟩)

omit [DecidableEq K] in
theorem alive_congr (s : Scene K V) {o o' : Shared V} (hid : o.id = o'.id) :
    s.alive o = s.alive o' := by
  unfold alive Soft.alive SoftHeap.alive
  rw [hid]

theorem entrust_filter {p : Shared V → Bool} {last last' : Option (Shared V)}
    (h : last.filter p = last'.filter p) (k : K) (op : Op K V) :
    (entrust k last op).filter p = (entrust k last' op).filter p := by
  cases op with
  | request r =>
    cases r with
    | insert k' o =>
      show (if k = k' then some o else last).filter p = (if k = k' then some o else last').filter p
      split
      · rfl
      · exact h
    | remove k' =>
      show (if k = k' then none else last).filter p = (if k = k' then none else last').filter p
      split
      · rfl
      · exact h
    | _ => exact h
  | close => rfl
  | heap op => exact h

theorem alive_of_alive_turn {op : Op K V} {during after : List (Shared V)}
    (hafter : ∀ o ∈ after, s.alive o = true)
    (hinsert : ∀ k o, op = .request (.insert k o) → o ∈ s.owned) {o : Shared V}
    (h : (s.turn op during after).alive o = true) : s.alive o = true := by
  rw [alive_iff] at h
  rcases h with ⟨k, o', hretained, hid⟩ | ⟨o', howned, hid⟩
  · rcases retained_perform hretained with hbefore | hnew
    · exact (s.alive_iff o).2 (.inl ⟨k, o', hbefore, hid⟩)
    · rw [← s.alive_congr hid]
      exact alive_of_owned (hinsert k o' hnew)
  · rw [← s.alive_congr hid]
    exact hafter o' howned

/-- An operation keeps a scene sound, if callers keep no others than live objects that occur, and if
the handles it drops are dead. -/
theorem Sound.turn (h : s.Sound capacity contents) {op : Op K V} {during after : List (Shared V)}
    (hafter : ∀ o ∈ after, s.alive o = true ∧ s.Occurs o)
    (hinsert : ∀ k o, op = .request (.insert k o) → o ∈ s.owned)
    (hdropped : ∀ k, ((s.turn op during after).cache.handles.get? k).filter
        (s.turn op during after).alive =
      (entrust k (s.cache.handles.get? k) op).filter (s.turn op during after).alive) :
    (s.turn op during after).Sound capacity contents := by
  obtain ⟨hheap, hcapacity⟩ := soundHeap_perform (w := s.around during) h.heap op
  refine ⟨h.tied.perform _ op, hheap, hcapacity.trans h.capacity, fun o ho => h.named o ?_, fun k => ?_⟩
  · rcases ho with howned | ⟨k, hhandle⟩ | ⟨k, hlast⟩
    · exact (hafter o howned).2
    · rcases handles_perform hhandle with hbefore | hnew
      · exact .inr (.inl ⟨k, hbefore⟩)
      · exact .inl (hinsert k o hnew)
    · rcases entrust_eq_some ((entrusted_concat k s.log op).symm.trans hlast) with hnew | hbefore
      · exact .inl (hinsert k o hnew)
      · exact .inr (.inr ⟨k, hbefore.1⟩)
  · have hshrunk : ∀ o, (s.turn op during after).alive o = true → s.alive o = true :=
      fun o => alive_of_alive_turn (fun o ho => (hafter o ho).1) hinsert
    have hlive := congrArg (Option.filter (s.turn op during after).alive) (h.live k)
    rw [filter_filter_of_imp hshrunk, filter_filter_of_imp hshrunk] at hlive
    have hlog : entrusted k (s.turn op during after).log = entrust k (entrusted k s.log) op :=
      entrusted_concat k s.log op
    rw [hdropped, hlog]
    exact entrust_filter hlive k op

/-- A new object is no other's, so it brings none back to life. -/
theorem Sound.make (h : s.Sound capacity contents) (value : V) :
    (s.act (.make value)).Sound capacity
      (fun id => if id = s.world.nextId then some value else contents id) := by
  have halive : ∀ o, s.Occurs o → (s.act (.make value)).alive o = s.alive o := by
    intro o ho
    have hold : s.world.nextId ≠ o.id := Nat.ne_of_gt (h.named o ho).2
    rw [Bool.eq_iff_iff, alive_iff, alive_iff]
    simp [act, World.share, hold]
  refine ⟨h.tied, h.heap, h.capacity, fun o ho => ?_, fun k => ?_⟩
  · have hcases : o = ⟨s.world.nextId, value⟩ ∨ s.Occurs o := by
      rcases ho with howned | hrest
      · rcases List.mem_append.1 howned with hold | hnew
        · exact .inr (.inl hold)
        · exact .inl (List.mem_singleton.1 hnew)
      · exact .inr (.inr hrest)
    rcases hcases with rfl | hold
    · exact ⟨if_pos rfl, Nat.lt_succ_self _⟩
    · obtain ⟨hcontents, hlt⟩ := h.named o hold
      exact ⟨(if_neg (Nat.ne_of_lt hlt)).trans hcontents, Nat.lt_succ_of_lt hlt⟩
  · have hsame : ∀ last : Option (Shared V), (∀ o, last = some o → s.Occurs o) →
        last.filter (s.act (.make value)).alive = last.filter s.alive := by
      intro last hlast
      cases last with
      | none => rfl
      | some o => rw [Option.filter_some, Option.filter_some, halive o (hlast o rfl)]
    show (s.cache.handles.get? k).filter _ = (entrusted k s.log).filter _
    rw [hsame _ fun o ho => .inr (.inl ⟨k, ho⟩), hsame _ fun o ho => .inr (.inr ⟨k, ho⟩)]
    exact h.live k

theorem Sound.drop (h : s.Sound capacity contents) (i : Nat) :
    (s.act (.drop i)).Sound capacity contents := by
  have hshrunk : ∀ o, (s.act (.drop i)).alive o = true → s.alive o = true := by
    intro o halive
    rw [alive_iff] at halive ⊢
    rcases halive with hretained | ⟨o', howned, hid⟩
    · exact .inl hretained
    · exact .inr ⟨o', List.mem_of_mem_eraseIdx howned, hid⟩
  refine ⟨h.tied, h.heap, h.capacity, fun o ho => h.named o ?_, fun k => ?_⟩
  · rcases ho with howned | hrest
    · exact .inl (List.mem_of_mem_eraseIdx howned)
    · exact .inr hrest
  · have hlive := congrArg (Option.filter (s.act (.drop i)).alive) (h.live k)
    rwa [filter_filter_of_imp hshrunk, filter_filter_of_imp hshrunk] at hlive

theorem keeping_alive (keep : Bool) {given : List (Shared V)}
    (hgiven : ∀ o ∈ given, s.alive o = true ∧ s.Occurs o) :
    ∀ o ∈ s.keeping keep given, s.alive o = true ∧ s.Occurs o := by
  intro o ho
  unfold keeping at ho
  split at ho
  · rcases List.mem_append.1 ho with howned | hnew
    · exact ⟨alive_of_owned howned, .inl howned⟩
    · exact hgiven o hnew
  · exact ⟨alive_of_owned ho, .inl ho⟩

theorem Sound.retained (h : s.Sound capacity contents) {k : K} {o : Shared V}
    (hget : s.cache.heap.retained.get? k = some o) : s.alive o = true ∧ s.Occurs o :=
  ⟨(s.alive_iff o).2 (.inl ⟨k, o, hget, rfl⟩), .inr (.inl ⟨k, h.tied k o hget⟩)⟩

theorem Sound.insert (h : s.Sound capacity contents) (k : K) {o : Shared V} (ho : o ∈ s.owned)
    {left : List (Shared V)} (hleft : ∀ o ∈ left, o ∈ s.owned) :
    (s.turn (.request (.insert k o)) left left).Sound capacity contents := by
  refine h.turn (fun o' ho' => ⟨alive_of_owned (hleft o' ho'), .inl (hleft o' ho')⟩) ?_ fun k' => ?_
  · intro k' o' heq
    injection heq with heq
    injection heq with hkey hvalue
    rwa [← hvalue]
  · have hstored := Table.get?_insert s.cache.handles k k' o
    refine (filter_handles_sweep (w := s.around left) (fun o' halive => ?_) k').trans
      (congrArg (Option.filter _) hstored)
    have halive : (Soft.sweep _ (s.around left)).cache.alive (s.around left) o' = true := halive
    rwa [alive_sweep] at halive

theorem Sound.settle (h : s.Sound capacity contents) {op : Op K V} {given : List (Shared V)}
    (hstores : ∀ k o, op ≠ .request (.insert k o)) (keep : Bool)
    (hgiven : ∀ o ∈ given, s.alive o = true ∧ s.Occurs o)
    (hdropped : ∀ (p : Shared V → Bool), (∀ o, p o = true → s.alive o = true) → ∀ k,
      ((s.cache.perform (s.around s.owned) op).cache.handles.get? k).filter p =
        (entrust k (s.cache.handles.get? k) op).filter p) :
    (s.turn op s.owned (s.keeping keep given)).Sound capacity contents := by
  have hafter := keeping_alive keep hgiven
  have hinsert : ∀ k o, op = .request (.insert k o) → o ∈ s.owned :=
    fun k o heq => (hstores k o heq).elim
  refine h.turn hafter hinsert fun k => hdropped _ (fun o => ?_) k
  exact alive_of_alive_turn (fun o ho => (hafter o ho).1) hinsert

theorem Sound.act (h : s.Sound capacity contents) (a : Act K V) :
    ∃ contents, (s.act a).Sound capacity contents := by
  -- only `make` and `insert` bring an object in: all other acts settle with what is there
  have hswept : ∀ (p : Shared V → Bool), (∀ o, p o = true → s.alive o = true) → ∀ k,
      ((s.cache.sweep (s.around s.owned)).cache.handles.get? k).filter p =
        (s.cache.handles.get? k).filter p := fun p hp k => filter_handles_sweep hp k
  have hnone : ∀ o ∈ ([] : List (Shared V)), s.alive o = true ∧ s.Occurs o := nofun
  cases a with
  | make value => exact ⟨_, h.make value⟩
  | drop i => exact ⟨_, h.drop i⟩
  | insert k i keep =>
    refine ⟨contents, ?_⟩
    simp only [Scene.act]
    split
    · rename_i o ho
      refine h.insert k (List.mem_of_getElem? ho) fun o' ho' => ?_
      split at ho'
      · exact ho'
      · exact List.mem_of_mem_eraseIdx ho'
    · exact h
  | get k keep =>
    refine ⟨contents, h.settle (by simp) keep (fun o ho => ?_) fun p hp k' => filter_handles_get hp k' k⟩
    rw [get_answer, Option.mem_toList] at ho
    obtain ⟨hstored, halive⟩ := Option.filter_eq_some_iff.1 ho
    exact ⟨halive, .inr (.inl ⟨k, hstored⟩)⟩
  | remove k keep =>
    refine ⟨contents, h.settle (by simp) keep (fun o ho => ?_) fun p hp k' => ?_⟩
    · rcases given_of_remove ho with hretained | ⟨hstored, halive⟩
      · exact h.retained hretained
      · exact ⟨halive, .inr (.inl ⟨k, hstored⟩)⟩
    · have herased := Table.get?_erase s.cache.handles k k'
      show ((s.cache.remove (s.around s.owned) k).cache.handles.get? k').filter p = _
      rw [remove_cache]
      exact congrArg (Option.filter p) herased
  | contains k => exact ⟨contents, h.settle (by simp) false hnone fun p hp k' => rfl⟩
  | keys => exact ⟨contents, h.settle (by simp) false hnone hswept⟩
  | size => exact ⟨contents, h.settle (by simp) false hnone hswept⟩
  | close => exact ⟨contents, h.settle (by simp) false hnone fun p hp k' => rfl⟩
  | release k keep =>
    refine ⟨contents, h.settle (by simp) keep (fun o ho => ?_) fun p hp k' => rfl⟩
    rw [Option.mem_toList] at ho
    exact h.retained ho
  | heap op => exact ⟨contents, h.settle (by simp) false hnone fun p hp k' => rfl⟩

theorem Sound.run (h : s.Sound capacity contents) (acts : List (Act K V)) :
    ∃ contents, (s.run acts).Sound capacity contents := by
  induction acts generalizing s contents with
  | nil => exact ⟨contents, h⟩
  | cons a acts ih =>
    obtain ⟨contents', hafter⟩ := h.act a
    exact ih hafter

theorem Sound.alive_iff_held (h : s.Sound capacity contents) {o : Shared V} (ho : s.Occurs o) :
    s.alive o = true ↔ s.Held o := by
  have hsame : ∀ o', s.Occurs o' → o'.id = o.id → o' = o := by
    intro o' ho' hid
    have hvalue := (h.named o' ho').1
    rw [hid, (h.named o ho).1] at hvalue
    obtain ⟨id, value⟩ := o
    obtain ⟨id', value'⟩ := o'
    obtain rfl : id' = id := hid
    obtain rfl : value = value' := Option.some.inj hvalue
    rfl
  rw [alive_iff]
  constructor
  · rintro (⟨k, o', hretained, hid⟩ | ⟨o', howned, hid⟩)
    · rw [← hsame o' (h.retained hretained).2 hid]
      exact .inl ⟨k, hretained⟩
    · rw [← hsame o' (.inl howned) hid]
      exact .inr howned
  · rintro (⟨k, hretained⟩ | howned)
    · exact .inl ⟨k, o, hretained, rfl⟩
    · exact .inr ⟨o, howned, rfl⟩

end Scene

theorem sound_of_built {b : Builder} {w : World} {c : Soft K V} (h : b.buildSoft w = .ok c) :
    Scene.Sound (b.config.softCapacity.getD defaultSoftCapacity) (fun _ => none) ⟨c, w, [], []⟩ := by
  have htied := tied_of_built h
  obtain rfl := eq_make_of_built h
  refine ⟨htied, SoftHeap.sound_ofCapacity _, rfl, fun o ho => ?_, fun k => rfl⟩
  rcases ho with howned | ⟨k, hstored⟩ | ⟨k, hlast⟩
  · cases howned
  · cases hstored
  · cases hlast

/-- Whatever callers do: what the heap retains under a key has its handle there; no more is retained
than there is room for; and a look-up finds an object exactly if that was the last to be stored under
the key, was not taken away since and is still held, by the heap or by a caller. -/
theorem live_while_held {b : Builder} {w : World} {c : Soft K V} (hbuilt : b.buildSoft w = .ok c)
    (acts : List (Act K V)) :
    let s := (Scene.mk c w [] []).run acts
    (∀ k o, s.cache.heap.retained.get? k = some o → s.cache.handles.get? k = some o) ∧
    (s.cache.heap.size ≤ b.config.softCapacity.getD defaultSoftCapacity ∧
      s.cache.heap.retained.size = s.cache.heap.size) ∧
    ∀ k o, (s.cache.get (s.around s.owned) k).answer = some o ↔
      LastStored k o s.log ∧ ((∃ k', s.cache.heap.retained.get? k' = some o) ∨ o ∈ s.owned) := by
  obtain ⟨contents, h⟩ := (sound_of_built hbuilt).run acts
  intro s
  refine ⟨h.tied, ⟨h.capacity ▸ h.heap.fits, h.heap.size_retained⟩, fun k o => ?_⟩
  rw [get_answer, ← entrusted_eq_some_iff]
  have hlive : s.cache.live? (s.around s.owned) k = (entrusted k s.log).filter s.alive := h.live k
  rw [hlive, Option.filter_eq_some_iff]
  refine and_congr_right fun hlast => ?_
  exact h.alive_iff_held (.inr (.inr ⟨k, hlast⟩))

/-- Two keys share an object that nobody else holds, in a heap with room for one. -/
def sharing : Scene Nat UInt8 :=
  (Scene.mk (Soft.make "pair" 1 0) ⟨0, 0, [], .ofFiles []⟩ [] []).run
    [.make 7, .insert 1 0 true, .insert 2 0 false]

/-- The first key is found by what the heap retains under the second. Once a third key takes the room,
the object is lost under both. -/
theorem live_while_held_sharing :
    (sharing.owned = [] ∧
      (sharing.cache.get (sharing.around sharing.owned) 1).answer = some ⟨0, 7⟩) ∧
    (((sharing.act (.make 8)).act (.insert 3 0 false)).cache.get
      (sharing.around sharing.owned) 1).answer = none := by
  have hbuilt : (Builder.ofConfig "pair" { softCapacity := some 1 }).buildSoft ⟨0, 0, [], .ofFiles []⟩ =
      .ok (Soft.make "pair" 1 0 : Soft Nat UInt8) := rfl
  have hfound := (live_while_held hbuilt [.make 7, .insert 1 0 true, .insert 2 0 false]).2.2 1 ⟨0, 7⟩
  refine ⟨⟨rfl, hfound.2 ⟨⟨[], [.request (.insert 2 ⟨0, 7⟩)], rfl, fun op hop => ?_⟩, .inl ⟨2, rfl⟩⟩⟩,
    by decide⟩
  rw [List.mem_singleton.1 hop]
  exact ⟨nofun, nofun, by simp⟩

end CacheLayer.Soft
