import CacheLayer.Proofs.List.Consistent
import Mathlib.Data.List.Infix

/-!
# An element in use is not made twice

While somebody holds an object, a lazy list that fetches one element at a time gives that object
again and asks for no other in its place. It may have left the object to its heap, and the heap may
have given it up; but the list still has the handle, and it forgets no handle of a living object.

* `element?` : the object that a list has for an index, held or left to the heap.
* `element?_takeIn`, `Drops.element?`, `element?_fetch` : what the parts of a read make of it.
* `get_again`, `element?_get_other` : a read of the index gives the object, and a read of another
  index leaves it alone.
* `Scene.Shows` : what a list has for an index, kept by one act and by a run of acts.
* `same_object_while_held` : the object is given as long as it is held.
-/

namespace CacheLayer.LazyList

variable {V : Type u} {l l' : LazyList V} {w : World} {i j : Nat} {s : Shared V}

/-- The object that a list has for an index: the one that it holds, or else the one left to the
heap. -/
def element? (l : LazyList V) (i : Nat) : Option (Shared V) := (l.values.get? i).or (l.soft.get? i)

/-! ## The parts of a read -/

theorem element?_retire (l : LazyList V) (is : List Nat) (i : Nat) :
    (l.retire is).element? i = l.element? i := by
  induction is generalizing l with
  | nil => rfl
  | cons j is ih =>
    rw [retire]
    split
    · exact ih l
    · rename_i s hvalue
      rw [ih]
      unfold element?
      rw [Table.get?_erase, Table.get?_insert]
      split
      · rename_i hj
        rw [hj, hvalue, Option.none_or, Option.some_or]
      · rfl

theorem element?_takeIn (l : LazyList V) (i : Nat) (s : Shared V) (j : Nat) :
    (l.takeIn i s).element? j = if j = i then some s else l.element? j := by
  unfold takeIn
  dsimp only
  rw [element?_retire]
  unfold element?
  rw [Table.get?_insert, Table.get?_erase]
  split
  · exact Option.some_or
  · rfl

theorem alive_of_holds (l : LazyList V) (hheld : w.holds s.id = true) : l.alive w s = true := by
  unfold alive SoftHeap.alive
  simp [hheld]

theorem Drops.element? (h : l.Drops w l') (hs : l.element? i = some s)
    (halive : l.alive w s = true) : l'.element? i = some s := by
  unfold LazyList.element? at hs ⊢
  rw [h.values]
  cases hvalue : l.values.get? i with
  | some t =>
    rw [hvalue, Option.some_or] at hs
    rw [Option.some_or, hs]
  | none =>
    rw [hvalue, Option.none_or] at hs
    rw [Option.none_or, h.kept i s hs halive]

theorem element?_of_lookUp (h : l.lookUp w i = (some s, l')) : l'.element? i = some s := by
  unfold lookUp at h
  split at h
  · rename_i t hvalue
    obtain ⟨ht, rfl⟩ := Prod.mk.inj h
    show (l.values.get? i).or (l.soft.get? i) = some s
    rw [hvalue, Option.some_or, ht]
  · split at h
    · cases h
    · rename_i t hsoft
      dsimp only at h
      split at h
      · obtain ⟨ht, rfl⟩ := Prod.mk.inj h
        rw [takeIn_erased, element?_takeIn, if_pos rfl, ht]
      · cases h

theorem lookUp_element? (hs : l.element? i = some s) (halive : l.alive w s = true) :
    ∃ l', l.lookUp w i = (some s, l') := by
  unfold element? at hs
  unfold lookUp
  cases hvalue : l.values.get? i with
  | some t =>
    rw [hvalue, Option.some_or] at hs
    exact ⟨_, congrArg (·, _) hs⟩
  | none =>
    rw [hvalue, Option.none_or] at hs
    simp only [hs, halive, if_true]
    exact ⟨_, rfl⟩

theorem element?_lookUp_other (hj : j ≠ i) (hs : l.element? i = some s)
    (halive : l.alive w s = true) : (l.lookUp w j).2.element? i = some s := by
  cases hlookUp : l.lookUp w j with
  | mk found l' =>
    cases found with
    | some t =>
      rcases (lookUp_some hlookUp).2 with rfl | rfl
      · exact hs
      · rw [element?_takeIn, if_neg (Ne.symm hj)]
        exact hs
    | none => exact (lookUp_none hlookUp).2.2.element? hs halive

theorem element?_fetch (hstrategy : l.strategy = .singleFetch) (w : World) (source : Source V)
    (j i : Nat) :
    (l.fetch w source j).list.element? i =
      if i = j then (l.fetch w source j).answer.toOption.or (l.element? i) else l.element? i := by
  have hwanted : l.wanted j = 1 := by rw [wanted, hstrategy]
  unfold fetch
  cases l.ask source j with
  | mk answer source' =>
    cases answer with
    | error e => simp [Except.toOption]
    | ok vs =>
      have hcount : (shareAll w (vs.take (l.wanted j))).1.length ≤ 1 := by
        rw [length_shareAll, hwanted]
        exact List.length_take_le 1 vs
      dsimp only
      generalize shareAll w (vs.take (l.wanted j)) = out at hcount
      obtain ⟨shared, w'⟩ := out
      match shared, hcount with
      | [], _ =>
        have hsame : l.element? i = if i = j then l.element? i else l.element? i := by simp
        exact hsame
      | [t], _ => exact element?_takeIn l j t i

/-! ## One read -/

theorem element?_get_missed (hstrategy : l.strategy = .singleFetch) (hj : j < l.length)
    (hlookUp : (l.sweep w).lookUp w j = (none, l')) (source : Source V) (i : Nat) :
    (l.get w source j).list.element? i =
      if i = j then (l.get w source j).answer.toOption.or (l'.element? i) else l'.element? i := by
  have hdrops := (l.sweep_drops w).trans (lookUp_none hlookUp).2.2
  have hcounted : LazyList.strategy { l' with metrics := l'.metrics.miss } = .singleFetch :=
    hdrops.settings.strategy.trans hstrategy
  rw [get_of_lookUp_none hj hlookUp]
  exact element?_fetch hcounted w source j i

/-- A read of the index gives the object that the list has, and asks for nothing. -/
theorem get_again (hi : i < l.length) (hs : l.element? i = some s)
    (hheld : w.holds s.id = true) (source : Source V) :
    (l.get w source i).answer = .ok s ∧ (l.get w source i).requests = [] ∧
      (l.get w source i).source = source ∧ (l.get w source i).list.element? i = some s := by
  have hswept := (l.sweep_drops w).element? hs (alive_of_holds l hheld)
  obtain ⟨l', hlookUp⟩ := lookUp_element? hswept (alive_of_holds _ hheld)
  have hfound : l'.element? i = some s := element?_of_lookUp hlookUp
  rw [get_of_lookUp_some hi hlookUp]
  exact ⟨rfl, rfl, rfl, hfound⟩

theorem element?_get_other (hstrategy : l.strategy = .singleFetch) (hj : j ≠ i)
    (hs : l.element? i = some s) (hheld : w.holds s.id = true) (source : Source V) :
    (l.get w source j).list.element? i = some s := by
  by_cases hinside : j < l.length
  · have hswept := (l.sweep_drops w).element? hs (alive_of_holds l hheld)
    have hfound := element?_lookUp_other hj hswept (alive_of_holds _ hheld)
    cases hlookUp : (l.sweep w).lookUp w j with
    | mk found l' =>
      rw [hlookUp] at hfound
      cases found with
      | some t =>
        rw [get_of_lookUp_some hinside hlookUp]
        exact hfound
      | none =>
        rw [element?_get_missed hstrategy hinside hlookUp, if_neg (Ne.symm hj)]
        exact hfound
  · rw [get_out_of_bounds (Nat.not_lt.1 hinside)]
    exact hs

theorem element?_of_get (hstrategy : l.strategy = .singleFetch) {source : Source V}
    (h : (l.get w source i).answer = .ok s) :
    i < l.length ∧ (l.get w source i).list.element? i = some s := by
  by_cases hi : i < l.length
  · refine ⟨hi, ?_⟩
    cases hlookUp : (l.sweep w).lookUp w i with
    | mk found l' =>
      cases found with
      | some t =>
        have hfound : l'.element? i = some t := element?_of_lookUp hlookUp
        rw [get_of_lookUp_some hi hlookUp] at h ⊢
        rw [← Except.ok.inj h]
        exact hfound
      | none =>
        rw [element?_get_missed hstrategy hi hlookUp, if_pos rfl, h]
        rfl
  · rw [get_out_of_bounds (Nat.not_lt.1 hi)] at h
    cases h

/-! ## Among callers -/

namespace Scene

/-- The list fetches single elements, and for `i` it has `s`. -/
structure Shows (scene : Scene V) (i : Nat) (s : Shared V) : Prop where
  coherent : scene.list.Coherent
  strategy : scene.list.strategy = .singleFetch
  inside : i < scene.list.length
  element : scene.list.element? i = some s

variable {scene : Scene V}

/-- Whatever happens while somebody holds the object, the list has it afterwards. -/
theorem Shows.act (h : scene.Shows i s) (hheld : scene.world.holds s.id = true) (a : Act) :
    (scene.act a).Shows i s := by
  obtain ⟨hcoherent, hsettings, -⟩ := h.coherent.act a
  refine ⟨hcoherent, hsettings.strategy.trans h.strategy, hsettings.length ▸ h.inside, ?_⟩
  cases a with
  | get j keep =>
    by_cases hj : j = i
    · rw [hj]
      exact (get_again h.inside h.element hheld scene.source).2.2.2
    · exact element?_get_other h.strategy hj h.element hheld scene.source
  | drop id => exact h.element
  | release j keep => exact h.element
  | heap op => exact h.element
  | others asked made => exact h.element

theorem Shows.run {acts : List Act} (h : scene.Shows i s)
    (hheld : ∀ moment, moment <+: acts → (scene.run moment).world.holds s.id = true) :
    (scene.run acts).Shows i s := by
  induction acts generalizing scene with
  | nil => exact h
  | cons a acts ih =>
    have hfirst := h.act (hheld [] List.nil_prefix) a
    refine ih hfirst fun moment hmoment => ?_
    exact hheld (a :: moment) ((List.prefix_cons_inj a).2 hmoment)

end Scene

/-- **An object in use is not made twice.** Once a read has given an object, every later read of its
index gives that object and asks for nothing, for as long as somebody holds it, whatever else
happens: other reads, others that ask the provider, and whatever is done to the heap. -/
theorem same_object_while_held (offset length cacheSize softCapacity : Nat) (w : World)
    (source : Source V) (before acts : List Act) (i : Nat) (keep : Bool) (s : Shared V) :
    let first := Scene.start offset length cacheSize .singleFetch softCapacity w source
    let reached := first.run before
    let given := reached.act (.get i keep)
    (reached.list.get reached.world reached.source i).answer = .ok s →
    (∀ moment, moment <+: acts → (given.run moment).world.holds s.id = true) →
      let last := given.run acts
      let again := last.list.get last.world last.source i
      again.answer = .ok s ∧ again.requests = [] ∧ again.source = last.source := by
  intro first reached given hgiven hheld last again
  obtain ⟨hcoherent, hsettings, -⟩ :=
    (show first.list.Coherent from coherent_fresh ..).run before
  obtain ⟨hinside, helement⟩ := element?_of_get hsettings.strategy hgiven
  obtain ⟨hcoherent', hsettings', -⟩ := hcoherent.act (.get i keep)
  have hshows : given.Shows i s :=
    ⟨hcoherent', (hsettings.trans hsettings').strategy, hsettings'.length ▸ hinside, helement⟩
  have hlast : last.Shows i s := hshows.run hheld
  obtain ⟨hanswer, hrequests, hsource, -⟩ :=
    get_again hlast.inside hlast.element (hheld acts List.prefix_rfl) last.source
  exact ⟨hanswer, hrequests, hsource⟩

/-- A list that holds one element, with a heap that keeps nothing. The element of 2 is pushed out,
named in the queue, swept past and found again. -/
theorem same_object_while_held_pushed_out :
    let reached := Scene.start 3 8 0 .singleFetch 0 ⟨0, 5, [], .ofFiles []⟩ ⟨indices, []⟩
    let given := reached.act (.get 2 true)
    let acts : List Act := [.get 0 true, .heap .reclaimAll, .get 7 false, .get 2 false, .get 0 true]
    (reached.list.get reached.world reached.source 2).answer = .ok ⟨5, 5⟩ ∧
      (∀ moment, moment <+: acts → (given.run moment).world.holds 5 = true) ∧
      let last := given.run acts
      (last.list.get last.world last.source 2).answer = .ok ⟨5, 5⟩ ∧
        last.list.values.get? 2 = none := by
  intro reached given acts
  have hgiven : (reached.list.get reached.world reached.source 2).answer = .ok ⟨5, 5⟩ := rfl
  have hheld (moment : List Act) (hmoment : moment <+: acts) :
      (given.run moment).world.holds 5 = true := by
    have hinits : ∀ moment ∈ acts.inits, (given.run moment).world.holds 5 = true := by decide
    exact hinits moment ((List.mem_inits _ _).2 hmoment)
  refine ⟨hgiven, hheld, ?_, by decide⟩
  exact (same_object_while_held 3 8 0 0 ⟨0, 5, [], .ofFiles []⟩ ⟨indices, []⟩ [] acts 2 true ⟨5, 5⟩
    hgiven hheld).1

end CacheLayer.LazyList
