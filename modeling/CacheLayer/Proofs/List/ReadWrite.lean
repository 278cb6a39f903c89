import CacheLayer.List.ReadWrite
import CacheLayer.Proofs.Presence

/-!
# What a read/write list makes up

A list is a view of a cache, and where populating layers fill what is missing, looking at an index can
make it hold a value. `set` looks only where there is a value; removing an element and stepping an
iteration look in any case. So what comes to hold a value that nobody set there is what a provider was
asked for, and without layers that is nothing.

* `Seeks` : what a look at an index does.
* `Leaves` : what an operation does that puts values at the given indices alone.
* `reached_list_contract` : each operation of a list in every state that it can reach.
-/

namespace CacheLayer.ReadWriteList

open Backend

variable {V : Type u} {S : Type v} {α : Type w} {β : Type x}

def backend (l : ReadWriteList V S) : Backend Nat S := l.cache.store.backend

/-! ## Operations -/

/-- What comes to hold a value was to be stored, by `P`, or a provider was asked for it. -/
structure Leaves (P : Nat → Prop) (l : ReadWriteList V S) (w : World)
    (out : Step (ReadWriteList V S) (Note Nat S) α) : Prop where
  spares : l.backend.Spares (fun i => P i ∨ i ∈ called out.log) w out.state.backend out.world
  layers : out.state.cache.layers = l.cache.layers

variable {P : Nat → Prop} {l : ReadWriteList V S} {w : World}

theorem Leaves.pure (P : Nat → Prop) (l : ReadWriteList V S) (w : World) (a : α) :
    Leaves P l w (.pure a l w) := ⟨.refl _ _ _, rfl⟩

theorem called_bind (x : Step (ReadWriteList V S) (Note Nat S) α)
    (f : α → ReadWriteList V S → World → Step (ReadWriteList V S) (Note Nat S) β) :
    called (x.bind f).log = called x.log ++ called (f x.answer x.state x.world).log :=
  called_append _ _

theorem Leaves.bind {x : Step (ReadWriteList V S) (Note Nat S) α}
    {f : α → ReadWriteList V S → World → Step (ReadWriteList V S) (Note Nat S) β}
    (h : Leaves P l w x) (hnext : Leaves P x.state x.world (f x.answer x.state x.world)) :
    Leaves P l w (x.bind f) := by
  refine ⟨?_, hnext.layers.trans h.layers⟩
  rw [called_bind]
  refine (h.spares.mono fun i hi => ?_).trans (hnext.spares.mono fun i hi => ?_)
  · exact hi.imp_right (List.mem_append_left _)
  · exact hi.imp_right (List.mem_append_right _)

theorem Leaves.regular {out : Step (ReadWriteList V S) (Note Nat S) α} (hleaves : Leaves P l w out)
    (h : l.backend.Regular w) : out.state.backend.Regular out.world := h.course hleaves.spares.course

theorem Leaves.populated {out : Step (ReadWriteList V S) (Note Nat S) α} (h : Leaves P l w out)
    {i : Nat} (hpresent : out.state.contains out.world i = true) :
    l.contains w i = true ∨ P i ∨ i ∈ called out.log := by
  by_cases hi : P i ∨ i ∈ called out.log
  · exact .inr hi
  · have hbefore := h.spares.contains out.world h.spares.around.now i hi hpresent
    exact .inl ((l.backend.contains_congr h.spares.around i).symm.trans hbefore)

/-! ## Looking -/

/-- A look at an index asks providers for that index alone, and for none where the backend finds it. -/
structure Seeks (i : Nat) (l : ReadWriteList V S) (w : World)
    (out : Step (ReadWriteList V S) (Note Nat S) (Found V)) : Prop
    extends Leaves (fun _ => False) l w out where
  own : ∀ j ∈ called out.log, j = i
  found : ∀ s, out.answer = .ok (some s) → l.contains w i = true ∨ i ∈ called out.log
  quiet : (l.cache.layers = [] ∨ ∃ value, (l.backend.get w i).answer = some value) →
    called out.log = []

theorem get_eq (l : ReadWriteList V S) (w : World) (i : Nat) :
    ∃ answer w', l.get w i =
        ⟨answer, { l with cache := (l.cache.get w i).state }, w', (l.cache.get w i).log⟩ ∧
      (l.cache.get w i).world.Around w' ∧
      ∀ s, answer = .ok (some s) → ∃ stored, (l.cache.get w i).answer = .ok (some stored) := by
  have hread (stored : Shared S) (w : World) : w.Around (l.proxy.read w stored).2 := by
    unfold Proxy.read
    split
    · exact .refl w
    · split
      · exact .refl w
      · exact ⟨rfl, rfl, Nat.le_succ _⟩
  unfold ReadWriteList.get Step.bind onCache Step.mapState
  dsimp only
  split
  · rename_i e hfailed
    exact ⟨.error e, _, by simp [Step.pure], .refl _, fun s hs => by cases hs⟩
  · exact ⟨.ok none, _, by simp [Step.pure], .refl _, fun s hs => by cases hs⟩
  · rename_i stored hstored
    exact ⟨(l.proxy.read (l.cache.get w i).world stored).1.map some, _, by simp [Step.pure],
      hread stored _, fun _ _ => ⟨stored, hstored⟩⟩

theorem get_seeks (h : l.backend.Regular w) (i : Nat) : Seeks i l w (l.get w i) := by
  obtain ⟨answer, w', hget, haround, hfound⟩ := l.get_eq w i
  have hseeks := Store.get_seeks l.cache.layers (s := l.cache.store) h i
  rw [hget]
  refine ⟨⟨?_, rfl⟩, hseeks.own, fun s hs => ?_, Store.called_get_eq_nil⟩
  · exact (hseeks.spares.mono fun _ => Or.inr).trans (.elsewhere _ _ haround)
  · obtain ⟨stored, hstored⟩ := hfound s hs
    exact hseeks.found stored hstored

/-! ## Setting and removing -/

theorem Leaves.mapAnswer {out : Step (ReadWriteList V S) (Note Nat S) α} (h : Leaves P l w out)
    (f : α → β) : Leaves P l w (out.mapAnswer f) := ⟨h.spares, h.layers⟩

theorem Leaves.mono {Q : Nat → Prop} {out : Step (ReadWriteList V S) (Note Nat S) α}
    (h : Leaves P l w out) (hPQ : ∀ i, P i → Q i) : Leaves Q l w out :=
  ⟨h.spares.mono fun i => Or.imp_left (hPQ i), h.layers⟩

theorem Leaves.holding {f : World → Step (ReadWriteList V S) (Note Nat S) α} (previous : Option (Shared V))
    (h : ∀ w' : World, w'.nextId = w.nextId → Leaves P l w' (f w')) :
    Leaves P l w (holding w previous f) := by
  unfold ReadWriteList.holding
  split
  · exact h w rfl
  · rename_i s
    have hheld := h (w.hold s.id) rfl
    exact ⟨hheld.spares.holding, hheld.layers⟩

theorem holding_eq (w : World) (previous : Option (Shared V))
    (f : World → Step (ReadWriteList V S) (Note Nat S) α) :
    ∃ w', (holding w previous f).state = (f w').state ∧ (holding w previous f).log = (f w').log := by
  unfold ReadWriteList.holding
  split
  · exact ⟨w, rfl, rfl⟩
  · rename_i s
    exact ⟨w.hold s.id, rfl, rfl⟩

section

variable (h : l.backend.Regular w) (i : Nat) (previous : Option (Shared V))

include h

theorem put_leaves (stored : S) :
    Leaves (· = i) l w (holding w previous fun w => l.onCache (·.put w i (some stored))) ∧
      called (holding w previous fun w => l.onCache (·.put w i (some stored))).log = [] := by
  constructor
  · refine .holding previous fun w' hid => ⟨?_, rfl⟩
    exact ((h.elsewhere (Nat.le_of_eq hid.symm)).spares_share i stored).mono fun _ => Or.inl
  · obtain ⟨w', -, hlog⟩ := holding_eq w previous fun w => l.onCache (·.put w i (some stored))
    rw [hlog]
    exact called_evictions _

theorem drop_leaves :
    Leaves P l w (holding w previous fun w => l.onCache (·.remove w i)) ∧
      called (holding w previous fun w => l.onCache (·.remove w i)).log = [] ∧
      (holding w previous fun w => l.onCache (·.remove w i)).state.backend.Lacks i := by
  obtain ⟨w', hstate, hlog⟩ := holding_eq w previous fun w => l.onCache (·.remove w i)
  refine ⟨.holding previous fun w' hid => ⟨?_, rfl⟩, ?_, ?_⟩
  · exact (h.elsewhere (Nat.le_of_eq hid.symm)).spares (.request (.remove i)) rfl
  · rw [hlog]
    exact called_evictions _
  · rw [hstate]
    exact h.lacks_remove w' i

end

/-- What setting an element does. It looks at the element before where there is one. -/
structure Sets (i : Nat) (l : ReadWriteList V S) (w : World)
    (out : Step (ReadWriteList V S) (Note Nat S) (Found V)) : Prop
    extends Leaves (· = i) l w out where
  replaced : ∀ s, out.answer = .ok (some s) → l.contains w i = true
  /-- A provider is asked for an element that is there and cannot be read, and for no other. -/
  asked : ∀ j ∈ called out.log,
    j = i ∧ l.contains w i = true ∧ (l.backend.get w i).answer = none ∧ l.cache.layers ≠ []

theorem Seeks.asked {i : Nat} {out : Step (ReadWriteList V S) (Note Nat S) (Found V)}
    (h : Seeks i l w out) {j : Nat} (hj : j ∈ called out.log) :
    j = i ∧ (l.backend.get w i).answer = none ∧ l.cache.layers ≠ [] := by
  have hloud : called out.log ≠ [] := List.ne_nil_of_mem hj
  refine ⟨h.own j hj, ?_, fun hplain => hloud (h.quiet (.inl hplain))⟩
  cases hfound : (l.backend.get w i).answer with
  | none => rfl
  | some value => exact (hloud (h.quiet (.inr ⟨value, hfound⟩))).elim

theorem set_sets (h : l.backend.Regular w) (i : Nat) (v : V) : Sets i l w (l.set w i v) := by
  unfold ReadWriteList.set
  split
  · exact ⟨.pure _ l w _, nofun, nofun⟩
  · rename_i stored _
    by_cases hcontains : l.contains w i = true
    · have hseeks := get_seeks h i
      obtain ⟨hput, hsilent⟩ := put_leaves (hseeks.regular h) i (l.get w i).answer.toOption.join stored
      dsimp only
      rw [if_pos hcontains]
      refine ⟨(hseeks.toLeaves.mono nofun).bind (hput.mapAnswer _), fun _ _ => hcontains, ?_⟩
      intro j hj
      rw [called_bind] at hj
      rcases List.mem_append.1 hj with hj | hj
      · obtain ⟨hown, hmissed, hlayers⟩ := hseeks.asked hj
        exact ⟨hown, hcontains, hmissed, hlayers⟩
      · exact (List.eq_nil_iff_forall_not_mem.1 hsilent j hj).elim
    · obtain ⟨hput, hsilent⟩ := put_leaves h i (none : Option (Shared V)) stored
      dsimp only
      rw [if_neg hcontains]
      refine ⟨(Leaves.pure _ l w _).bind (hput.mapAnswer _), nofun, ?_⟩
      exact fun j hj => (List.eq_nil_iff_forall_not_mem.1 hsilent j hj).elim

/-- What removing an element does. It looks at the element in any case. -/
structure Removes (i : Nat) (l : ReadWriteList V S) (w : World)
    (out : Step (ReadWriteList V S) (Note Nat S) (Found V)) : Prop
    extends Leaves (fun _ => False) l w out where
  given : ∀ s, out.answer = .ok (some s) → l.contains w i = true ∨ i ∈ called out.log
  /-- A provider is asked for an element that the cache does not find, and for no other. -/
  asked : ∀ j ∈ called out.log,
    j = i ∧ (l.backend.get w i).answer = none ∧ l.cache.layers ≠ []
  gone : ∀ found, out.answer = .ok found → out.state.backend.Lacks i

theorem remove_of_error {i : Nat} {e : CacheError} (h : (l.get w i).answer = .error e) :
    l.remove w i = l.get w i := by
  unfold ReadWriteList.remove Step.bind
  rw [h]
  simp [Step.pure, ← h]

theorem remove_of_ok {i : Nat} {previous : Option (Shared V)} (h : (l.get w i).answer = .ok previous) :
    l.remove w i = (l.get w i).bind fun _ l w =>
      (holding w previous fun w => l.onCache (·.remove w i)).mapAnswer fun _ => .ok previous := by
  unfold ReadWriteList.remove Step.bind
  rw [h]

theorem remove_removes (h : l.backend.Regular w) (i : Nat) : Removes i l w (l.remove w i) := by
  have hseeks := get_seeks h i
  cases hanswer : (l.get w i).answer with
  | error e =>
    rw [remove_of_error hanswer]
    refine ⟨hseeks.toLeaves, hseeks.found, fun _ => hseeks.asked, fun found hfound => ?_⟩
    rw [hanswer] at hfound
    cases hfound
  | ok previous =>
    obtain ⟨hdrop, hsilent, hgone⟩ := drop_leaves (P := fun _ => False) (hseeks.regular h) i previous
    have hlog : called (l.remove w i).log = called (l.get w i).log := by
      rw [remove_of_ok hanswer, called_bind]
      exact (congrArg (_ ++ ·) hsilent).trans (List.append_nil _)
    refine ⟨?_, ?_, ?_, ?_⟩
    · rw [remove_of_ok hanswer]
      exact hseeks.toLeaves.bind (hdrop.mapAnswer _)
    · rw [hlog, remove_of_ok hanswer]
      exact fun s hs => hseeks.found s (hanswer.trans hs)
    · rw [hlog]
      exact fun _ => hseeks.asked
    · rw [remove_of_ok hanswer]
      exact fun _ _ => hgone

/-! ## Clearing -/

structure Clears (l : ReadWriteList V S) (w : World)
    (out : Step (ReadWriteList V S) (Note Nat S) Unit) : Prop
    extends Leaves (fun _ => False) l w out where
  silent : called out.log = []
  gone : ∀ i ∈ (l.indices w).answer, out.state.backend.Lacks i

theorem removeAll_clears (h : l.backend.Regular w) (is : List Nat) :
    Leaves (fun _ => False) l w (l.removeAll w is) ∧ called (l.removeAll w is).log = [] ∧
      ∀ i ∈ is, (l.removeAll w is).state.backend.Lacks i := by
  induction is generalizing l w with
  | nil => exact ⟨.pure _ l w _, rfl, nofun⟩
  | cons i is ih =>
    have hfirst : Leaves (fun _ => False) l w (l.onCache (·.remove w i)) :=
      ⟨h.spares (.request (.remove i)) rfl, rfl⟩
    have hregular := hfirst.regular h
    obtain ⟨hrest, hsilent, hothers⟩ := ih hregular
    refine ⟨hfirst.bind hrest, ?_, fun j hj => ?_⟩
    · exact (called_bind _ _).trans (List.append_eq_nil_iff.2 ⟨called_evictions _, hsilent⟩)
    · rcases List.mem_cons.1 hj with rfl | hj
      · -- Nothing that is removed later brings the first one back.
        refine hregular.lacks_course hrest.spares.course ?_ (h.lacks_remove w j)
        rw [hsilent]
        exact fun hj => hj.elim id nofun
      · exact hothers j hj

theorem clear_clears (h : l.backend.Regular w) : Clears l w (l.clear w) := by
  have hlisted : Leaves (fun _ => False) l w (l.onCache (·.keys w)) :=
    ⟨h.spares (.request .keys) rfl, rfl⟩
  obtain ⟨hrest, hsilent, hgone⟩ := removeAll_clears (hlisted.regular h) (l.cache.keys w).answer
  refine ⟨hlisted.bind hrest, ?_, fun i hi => hgone i ?_⟩
  · exact (called_bind _ _).trans (List.append_eq_nil_iff.2 ⟨called_evictions _, hsilent⟩)
  · exact (List.mergeSort_perm _ _).mem_iff.1 hi

/-! ## Iterating -/

/-- What a step of an iteration over `is` does. It looks at one index after the other. -/
structure Steps (is : List Nat) (l : ReadWriteList V S) (w : World)
    (out : Step (ReadWriteList V S) (Note Nat S) (Item V)) : Prop
    extends Leaves (fun _ => False) l w out where
  given : ∀ i s rest, out.answer = some (.ok (i, s), rest) →
    i ∈ is ∧ (l.contains w i = true ∨ i ∈ called out.log)
  asked : ∀ i ∈ called out.log, i ∈ is ∧ l.cache.layers ≠ []

theorem next_of_missed {i : Nat} {is : List Nat} (h : (l.get w i).answer = .ok none) :
    l.next w (i :: is) = (l.get w i).bind fun _ l w => l.next w is := by
  rw [next]
  unfold Step.bind
  rw [h]

theorem next_of_found {i : Nat} {is : List Nat} {s : Shared V} (h : (l.get w i).answer = .ok (some s)) :
    l.next w (i :: is) = (l.get w i).mapAnswer fun _ => some (.ok (i, s), is) := by
  rw [next]
  unfold Step.bind
  rw [h]
  simp [Step.pure, Step.mapAnswer]

theorem next_of_error {i : Nat} {is : List Nat} {e : CacheError} (h : (l.get w i).answer = .error e) :
    l.next w (i :: is) = (l.get w i).mapAnswer fun _ => some (.error e, is) := by
  rw [next]
  unfold Step.bind
  rw [h]
  simp [Step.pure, Step.mapAnswer]

theorem next_steps (h : l.backend.Regular w) (is : List Nat) : Steps is l w (l.next w is) := by
  induction is generalizing l w with
  | nil => exact ⟨.pure _ l w _, nofun, nofun⟩
  | cons i is ih =>
    have hseeks := get_seeks h i
    have hasked : ∀ j ∈ called (l.get w i).log, j ∈ i :: is ∧ l.cache.layers ≠ [] := by
      intro j hj
      obtain ⟨rfl, -, hlayers⟩ := hseeks.asked hj
      exact ⟨List.mem_cons_self, hlayers⟩
    cases hanswer : (l.get w i).answer with
    | error e =>
      rw [next_of_error hanswer]
      exact ⟨hseeks.toLeaves.mapAnswer _, nofun, hasked⟩
    | ok found =>
      cases found with
      | some s =>
        rw [next_of_found hanswer]
        refine ⟨hseeks.toLeaves.mapAnswer _, fun j s' rest hgiven => ?_, hasked⟩
        cases hgiven
        exact ⟨List.mem_cons_self, hseeks.found s hanswer⟩
      | none =>
        have hrest := ih (hseeks.regular h)
        rw [next_of_missed hanswer]
        refine ⟨hseeks.toLeaves.bind hrest.toLeaves, fun j s rest hgiven => ?_, fun j hj => ?_⟩
        · obtain ⟨hj, hpresent⟩ := hrest.given j s rest hgiven
          refine ⟨List.mem_cons_of_mem i hj, ?_⟩
          rw [called_bind, List.mem_append]
          rcases hpresent with hpresent | hlater
          · rcases hseeks.populated hpresent with hbefore | hfalse | hfirst
            -- it was there before, or else a layer was asked for it on the way
            · exact .inl hbefore
            · exact hfalse.elim
            · exact .inr (.inl hfirst)
          · exact .inr (.inr hlater)
        · rw [called_bind, List.mem_append] at hj
          rcases hj with hj | hj
          · exact hasked j hj
          · obtain ⟨hmem, hlayers⟩ := hrest.asked j hj
            rw [hseeks.layers] at hlayers
            exact ⟨List.mem_cons_of_mem i hmem, hlayers⟩

/-! ## Every state -/

/-- What is done to a list; an iteration goes on with the indices that are left to it. -/
inductive Op (V : Type u) where
  | get (i : Nat)
  | set (i : Nat) (v : V)
  | remove (i : Nat)
  | clear
  | next (is : List Nat)

def Op.target? : Op V → Option Nat
  | .set i _ => some i
  | _ => none

def perform (l : ReadWriteList V S) (w : World) :
    Op V → Step (ReadWriteList V S) (Note Nat S) Unit
  | .get i => (l.get w i).mapAnswer fun _ => ()
  | .set i v => (l.set w i v).mapAnswer fun _ => ()
  | .remove i => (l.remove w i).mapAnswer fun _ => ()
  | .clear => l.clear w
  | .next is => (l.next w is).mapAnswer fun _ => ()

/-- The list after others used its cache, and providers were asked. -/
def usedBy (l : ReadWriteList V S) (backend : Backend Nat S) (calls : List (Nat × Nat)) :
    ReadWriteList V S := { l with cache := { l.cache with store := ⟨backend, calls⟩ } }

/-- The states of a list over any cache under any layers, and the worlds around it. -/
inductive Reached : ReadWriteList V S → World → Prop
  | built {b : Builder} {st : Storage Nat S} {kind : CacheKind} {c : Backend Nat S} {w w' : World}
    (hbuilt : b.buildKind st w kind = (.ok c, w')) (layers : List (Layer Nat S)) (proxy : Proxy V S) :
    Reached ⟨⟨⟨c, []⟩, layers⟩, proxy⟩ w'
  | performed {l : ReadWriteList V S} {w : World} (h : Reached l w) (op : Op V) :
    Reached (l.perform w op).state (l.perform w op).world
  | elsewhere {l : ReadWriteList V S} {w w' : World} {c : Backend Nat S} (h : Reached l w)
    (hcourse : l.backend.Course (fun _ => True) w c w') (calls : List (Nat × Nat)) :
    Reached (l.usedBy c calls) w'

/-- What can become of a list while nothing is set at `i`, here or elsewhere, and no provider is asked
for it. -/
inductive Unset (i : Nat) (l : ReadWriteList V S) (w : World) : ReadWriteList V S → World → Prop
  | refl : Unset i l w l w
  | performed {l' : ReadWriteList V S} {w' : World} (h : Unset i l w l' w') (op : Op V)
    (hop : op.target? ≠ some i) (hcalled : i ∉ called (l'.perform w' op).log) :
    Unset i l w (l'.perform w' op).state (l'.perform w' op).world
  | elsewhere {l' : ReadWriteList V S} {w' w'' : World} {c : Backend Nat S} (h : Unset i l w l' w')
    (hcourse : l'.backend.Course (· ≠ i) w' c w'') (calls : List (Nat × Nat)) :
    Unset i l w (l'.usedBy c calls) w''

theorem perform_leaves (h : l.backend.Regular w) (op : Op V) :
    Leaves (fun i => op.target? = some i) l w (l.perform w op) := by
  cases op with
  | get i => exact ((get_seeks h i).toLeaves.mono nofun).mapAnswer fun _ => ()
  | set i v =>
    have htarget : ∀ j, j = i → some i = some j := fun _ hj => congrArg some hj.symm
    exact ((set_sets h i v).toLeaves.mono htarget).mapAnswer fun _ => ()
  | remove i => exact ((remove_removes h i).toLeaves.mono nofun).mapAnswer fun _ => ()
  | clear => exact (clear_clears h).toLeaves.mono nofun
  | next is => exact ((next_steps h is).toLeaves.mono nofun).mapAnswer fun _ => ()

theorem Reached.regular (h : l.Reached w) : l.backend.Regular w := by
  induction h with
  | built hbuilt layers proxy => exact regular_of_built hbuilt
  | performed _ op ih => exact (perform_leaves ih op).regular ih
  | elsewhere _ hcourse _ ih => exact ih.course hcourse

/-- An index that nothing is set at is one course away from what it was. -/
theorem Unset.course {i : Nat} {l' : ReadWriteList V S} {w' : World} (h : l.backend.Regular w)
    (hunset : Unset i l w l' w') : l.backend.Course (· ≠ i) w l'.backend w' := by
  induction hunset with
  | refl => exact .refl
  | @performed l' w' _ op hop hcalled ih =>
    refine ih.trans ((perform_leaves (h.course ih) op).spares.course.mono fun j hj heq => ?_)
    subst heq
    exact hj.elim hop hcalled
  | elsewhere _ hcourse _ ih => exact ih.trans hcourse

/-- What a list does in a state. -/
structure Contract (l : ReadWriteList V S) (w : World) : Prop where
  set : ∀ i v, Sets i l w (l.set w i v)
  remove : ∀ i, Removes i l w (l.remove w i)
  clear : Clears l w (l.clear w)
  next : ∀ is, Steps is l w (l.next w is)
  /-- While nothing is set where there is no entry, an iteration passes it over, unless a provider is
  asked for it. -/
  passed : ∀ i, l.backend.Lacks i → ∀ l' w', Unset i l w l' w' → ∀ is s rest,
    (l'.next w' is).answer = some (.ok (i, s), rest) → i ∈ called (l'.next w' is).log

/-- In every state of a list, over any cache under any layers, what comes to hold a value was set there
or a provider was asked for it, and what is given was there or a provider was asked for it. Clearing
asks no provider; setting asks one only for an element that is there and cannot be read; removing and
iterating ask for what the cache does not find. Without layers nobody is asked. -/
theorem reached_list_contract (h : l.Reached w) : l.Contract w where
  set := set_sets h.regular
  remove := remove_removes h.regular
  clear := clear_clears h.regular
  next := next_steps h.regular
  passed i hlacks l' w' hunset is s rest hgiven := by
    have hcourse := hunset.course h.regular
    have hregular := h.regular.course hcourse
    have hstill := h.regular.lacks_course hcourse (fun hne => hne rfl) hlacks
    obtain ⟨-, hpresent | hasked⟩ := (next_steps hregular is).given i s rest hgiven
    · have hpresent : l'.backend.contains w' i = true := hpresent
      rw [hregular.not_contains hstill] at hpresent
      cases hpresent
    · exact hasked

/-- A list over a cache in memory under a layer that fills every index. -/
def filling : ReadWriteList UInt8 UInt8 :=
  ⟨⟨⟨.volatile (.make "pair" 4 UInt64.ofNat none none 0), []⟩,
    [.make ⟨fun _ _ => .ok 7⟩ .concurrent .tolerateUnavailable]⟩, .identity⟩

theorem reached_filling : Reached filling bareWorld := by
  have hbuilt : (pairBuilder none none).buildKind byteStorage bareWorld .volatile =
      (.ok filling.backend, bareWorld) := rfl
  exact .built hbuilt _ _

/-- What was set is given back, and nobody is asked. -/
theorem reached_list_contract_filling :
    let l := filling.perform bareWorld (.set 1 8)
    l.state.Contract l.world ∧ (l.state.remove l.world 1).answer = .ok (some ⟨0, 8⟩) ∧
      called (l.state.remove l.world 1).log = [] := by
  intro l
  have hcontract := reached_list_contract (reached_filling.performed (.set 1 8))
  exact ⟨hcontract, by decide, by decide⟩

/-- An index that holds nothing is filled to be removed; one that was removed is filled to be visited. -/
theorem makes_up_elements :
    (¬ ∀ (l : ReadWriteList UInt8 UInt8) (w : World), l.Reached w → ∀ i s,
      (l.remove w i).answer = .ok (some s) → l.contains w i = true) ∧
    ¬ ∀ (l : ReadWriteList UInt8 UInt8) (w : World), l.Reached w → ∀ i s rest,
      ((l.remove w i).state.next (l.remove w i).world [i]).answer ≠ some (.ok (i, s), rest) := by
  constructor
  · intro h
    have hmade := h filling bareWorld reached_filling 3 ⟨0, 7⟩ (by decide)
    revert hmade
    decide
  · intro h
    exact h filling bareWorld reached_filling 3 ⟨1, 7⟩ [] (by decide)

end CacheLayer.ReadWriteList
