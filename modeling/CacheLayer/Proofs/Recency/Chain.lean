import CacheLayer.Proofs.Table
import CacheLayer.Recency.Checked
import Mathlib.Data.Option.Basic

/-!
# Chains of links

What `detach` and `attachFront` do to the links of a linked list, whatever its keys are. A link is
seen through `label?`, its key with its weight, and `beside?`, the places of its neighbours; both
operations leave every label alone.

* `beside?_detach`, `beside?_attachFront` : which neighbours change.
* `Chained` : the links at these places follow each other, from the front to the back.
* `Chained.detach`, `Chained.attachFront` : a chain without one of its links, and with one before it.
* `Chained.detach?_eq`, `Chained.attachFront?_eq` : every link that is looked up is there.
* `Chained.forth`, `Chained.back_again` : what one meets along `older`, and along `newer`.
-/

namespace CacheLayer.Linked

variable {K : Type u} {l : Linked K} {place : Nat}

/-- The key with the weight of the link at a place. -/
def label? (l : Linked K) (p : Nat) : Option (K × Nat) :=
  (l.links.get? p).map fun link => (link.key, link.weight)

/-- The newer and the older neighbour of the link at a place. -/
def beside? (l : Linked K) (p : Nat) : Option (Option Nat × Option Nat) :=
  (l.links.get? p).map fun link => (link.newer, link.older)

theorem isSome_label? (l : Linked K) (p : Nat) : (l.label? p).isSome = l.links.contains p := by
  rw [label?, Option.isSome_map, Table.contains_eq]

theorem isSome_beside? (l : Linked K) (p : Nat) : (l.beside? p).isSome = l.links.contains p := by
  rw [beside?, Option.isSome_map, Table.contains_eq]

theorem contains_of_beside? {b : Option Nat × Option Nat} (h : l.beside? place = some b) :
    l.links.contains place = true := by
  rw [← isSome_beside?, h, Option.isSome_some]

theorem contains_modify (t : Table Nat (Link K)) (p q : Nat) (f : Link K → Link K) :
    (t.modify p f).contains q = t.contains q := by
  rw [Table.contains_eq, Table.get?_modify, Table.contains_eq]
  split
  · rename_i hq
    rw [hq, Option.isSome_map]
  · rfl

/-! ## Detaching -/

@[simp] theorem index_detach (l : Linked K) (place : Nat) : (l.detach place).index = l.index := by
  unfold detach
  split
  · rfl
  · split <;> split <;> rfl

@[simp] theorem total_detach (l : Linked K) (place : Nat) : (l.detach place).total = l.total := by
  unfold detach
  split
  · rfl
  · split <;> split <;> rfl

@[simp] theorem nextPlace_detach (l : Linked K) (place : Nat) :
    (l.detach place).nextPlace = l.nextPlace := by
  unfold detach
  split
  · rfl
  · split <;> split <;> rfl

/-- The neighbours of a link that is detached become neighbours of each other. -/
theorem beside?_detach {newer older : Option Nat} (h : l.beside? place = some (newer, older))
    (p : Nat) : (l.detach place).beside? p = (l.beside? p).map fun b =>
      (if older = some p then newer else b.1, if newer = some p then older else b.2) := by
  obtain ⟨⟨k, w, newer', older'⟩, hgone, hbeside⟩ := Option.map_eq_some_iff.1 h
  obtain ⟨rfl, rfl⟩ := Prod.mk.inj hbeside
  unfold beside? detach
  rw [hgone]
  cases hlink : l.links.get? p with
  | none => cases newer' <;> cases older' <;> simp only [Table.get?_modify] <;> grind
  | some link => cases newer' <;> cases older' <;> simp only [Table.get?_modify] <;> grind

@[simp] theorem label?_detach (l : Linked K) (place p : Nat) :
    (l.detach place).label? p = l.label? p := by
  unfold label? detach
  cases hgone : l.links.get? place with
  | none => rfl
  | some gone =>
    obtain ⟨k, w, newer, older⟩ := gone
    cases hlink : l.links.get? p with
    | none => cases newer <;> cases older <;> simp only [Table.get?_modify] <;> grind
    | some link => cases newer <;> cases older <;> simp only [Table.get?_modify] <;> grind

theorem front_detach {newer older : Option Nat} (h : l.beside? place = some (newer, older)) :
    (l.detach place).front = if newer = none then older else l.front := by
  obtain ⟨⟨k, w, newer', older'⟩, hgone, hbeside⟩ := Option.map_eq_some_iff.1 h
  obtain ⟨rfl, rfl⟩ := Prod.mk.inj hbeside
  unfold detach
  rw [hgone]
  cases newer' <;> cases older' <;> rfl

theorem back_detach {newer older : Option Nat} (h : l.beside? place = some (newer, older)) :
    (l.detach place).back = if older = none then newer else l.back := by
  obtain ⟨⟨k, w, newer', older'⟩, hgone, hbeside⟩ := Option.map_eq_some_iff.1 h
  obtain ⟨rfl, rfl⟩ := Prod.mk.inj hbeside
  unfold detach
  rw [hgone]
  cases newer' <;> cases older' <;> rfl

/-! ## Attaching -/

@[simp] theorem index_attachFront (l : Linked K) (place : Nat) :
    (l.attachFront place).index = l.index := by
  unfold attachFront
  dsimp only
  split <;> rfl

@[simp] theorem total_attachFront (l : Linked K) (place : Nat) :
    (l.attachFront place).total = l.total := by
  unfold attachFront
  dsimp only
  split <;> rfl

@[simp] theorem nextPlace_attachFront (l : Linked K) (place : Nat) :
    (l.attachFront place).nextPlace = l.nextPlace := by
  unfold attachFront
  dsimp only
  split <;> rfl

@[simp] theorem front_attachFront (l : Linked K) (place : Nat) :
    (l.attachFront place).front = some place := by
  unfold attachFront
  dsimp only
  split <;> rfl

theorem back_attachFront (l : Linked K) (place : Nat) :
    (l.attachFront place).back = if l.front = none then some place else l.back := by
  unfold attachFront
  cases hfront : l.front <;> rfl

/-- The link goes before the front, and the front knows it. -/
theorem beside?_attachFront (l : Linked K) (place p : Nat) :
    (l.attachFront place).beside? p = (l.beside? p).map fun b =>
      (if l.front = some p then some place else if p = place then none else b.1,
        if p = place then l.front else b.2) := by
  unfold beside? attachFront
  cases hlink : l.links.get? p with
  | none => cases hfront : l.front <;> simp only [Table.get?_modify] <;> grind
  | some link => cases hfront : l.front <;> simp only [Table.get?_modify] <;> grind

@[simp] theorem label?_attachFront (l : Linked K) (place p : Nat) :
    (l.attachFront place).label? p = l.label? p := by
  unfold label? attachFront
  cases hlink : l.links.get? p with
  | none => cases hfront : l.front <;> simp only [Table.get?_modify] <;> grind
  | some link => cases hfront : l.front <;> simp only [Table.get?_modify] <;> grind

/-! ## Chains -/

/-- The links at `places` follow each other, from the front to the back. -/
structure Chained (l : Linked K) (places : List Nat) : Prop where
  nodup : places.Nodup
  front : l.front = places.head?
  back : l.back = places.getLast?
  beside : ∀ newer p older, places = newer ++ p :: older →
    l.beside? p = some (newer.getLast?, older.head?)

theorem append_eq_split {α : Type v} {xs ys before after : List α} {a : α}
    (h : xs ++ ys = before ++ a :: after) :
    (∃ between, xs = before ++ a :: between ∧ after = between ++ ys) ∨
      ∃ between, before = xs ++ between ∧ ys = between ++ a :: after := by
  rcases List.append_eq_append_iff.1 h with ⟨between, rfl, rfl⟩ | ⟨between, rfl, hrest⟩
  · exact .inr ⟨between, rfl, rfl⟩
  · cases between with
    | nil => exact .inr ⟨[], by simp, by simpa using hrest.symm⟩
    | cons b between =>
      obtain ⟨rfl, rfl⟩ := List.cons.inj hrest
      exact .inl ⟨between, rfl, rfl⟩

theorem head?_ne {places : List Nat} {p : Nat} (h : p ∉ places) : places.head? ≠ some p :=
  fun hhead => h (List.mem_of_mem_head? hhead)

theorem getLast?_ne {places : List Nat} {p : Nat} (h : p ∉ places) : places.getLast? ≠ some p :=
  fun hlast => h (List.mem_of_getLast? hlast)

theorem chained_empty : (empty : Linked K).Chained [] where
  nodup := List.nodup_nil
  front := rfl
  back := rfl
  beside := by
    intro newer p older h
    simp at h

theorem Chained.congr {l' : Linked K} {places : List Nat} (h : l.Chained places)
    (hfront : l'.front = l.front) (hback : l'.back = l.back)
    (hbeside : ∀ p ∈ places, l'.beside? p = l.beside? p) : l'.Chained places where
  nodup := h.nodup
  front := hfront.trans h.front
  back := hback.trans h.back
  beside := by
    intro newer p older hsplit
    rw [hbeside p (by simp [hsplit])]
    exact h.beside newer p older hsplit

theorem Chained.detach {newer older : List Nat} {p : Nat} (h : l.Chained (newer ++ p :: older)) :
    (l.detach p).Chained (newer ++ older) := by
  have hbeside := h.beside newer p older rfl
  have hapart := h.nodup
  constructor
  · exact hapart.sublist (List.Sublist.append_left (List.sublist_cons_self p older) newer)
  · rw [front_detach hbeside, h.front]
    cases newer <;> simp
  · rw [back_detach hbeside, h.back]
    cases older <;> simp
  · intro before q after hsplit
    rw [beside?_detach hbeside]
    rcases append_eq_split hsplit with ⟨between, rfl, rfl⟩ | ⟨between, rfl, rfl⟩
    · -- The place lies before the link that leaves, which may be its older neighbour.
      have hq : q ∉ older := by grind
      rw [h.beside before q (between ++ p :: older) (by simp), Option.map_some,
        if_neg (head?_ne hq)]
      cases between with
      | nil => simp
      | cons b between =>
        have hlast : (before ++ q :: b :: between).getLast? = (b :: between).getLast? := by
          simp [List.getLast?_cons]
        have hb : q ∉ b :: between := by grind
        rw [hlast, if_neg (getLast?_ne hb)]
        rfl
    · -- The place lies behind the link that leaves, which may be its newer neighbour.
      have hq : q ∉ newer := by grind
      rw [h.beside (newer ++ p :: between) q after (by simp), Option.map_some,
        if_neg (getLast?_ne hq)]
      cases between with
      | nil => simp
      | cons b between =>
        have hhead : (b :: between ++ q :: after).head? = some b := rfl
        have hb : some b ≠ some q := by grind
        rw [hhead, if_neg hb]
        simp

theorem Chained.attachFront {places : List Nat} (h : l.Chained places)
    (hnew : place ∉ places) (hlive : l.links.contains place = true) :
    (l.attachFront place).Chained (place :: places) := by
  constructor
  · exact List.nodup_cons.2 ⟨hnew, h.nodup⟩
  · exact front_attachFront l place
  · rw [back_attachFront, h.front, h.back]
    cases places <;> simp
  · intro before q after hsplit
    rw [beside?_attachFront, h.front]
    cases before with
    | nil =>
      obtain ⟨rfl, rfl⟩ := List.cons.inj hsplit
      obtain ⟨b, hb⟩ := Option.isSome_iff_exists.1 ((l.isSome_beside? place).trans hlive)
      rw [hb, Option.map_some, if_neg (head?_ne hnew), if_pos rfl, if_pos rfl]
      rfl
    | cons b before =>
      obtain ⟨rfl, hplaces⟩ := List.cons.inj hsplit
      have hq : q ≠ place := by grind
      rw [h.beside before q after hplaces, Option.map_some, if_neg hq, if_neg hq]
      cases before with
      | nil => simp [hplaces]
      | cons c before =>
        have hc : places.head? ≠ some q := by
          have := h.nodup
          grind
        rw [if_neg hc]
        simp [List.getLast?_cons]

theorem Chained.contains {places : List Nat} (h : l.Chained places) {p : Nat} (hp : p ∈ places) :
    l.links.contains p = true := by
  obtain ⟨newer, older, hsplit⟩ := List.append_of_mem hp
  exact contains_of_beside? (h.beside newer p older hsplit)

/-! ## Every link is there -/

theorem change?_eq {p : Nat} (h : l.links.contains p = true) (f : Link K → Link K) :
    l.change? p f = some { l with links := l.links.modify p f } := if_pos h

/-- A link of a chain can be detached: its neighbours are there. -/
theorem Chained.detach?_eq {newer older : List Nat} {p : Nat}
    (h : l.Chained (newer ++ p :: older)) : l.detach? p = some (l.detach p) := by
  obtain ⟨⟨k, w, newer', older'⟩, hlink, hbeside⟩ :=
    Option.map_eq_some_iff.1 (h.beside newer p older rfl)
  obtain ⟨hnewer, holder⟩ := Prod.mk.inj hbeside
  have hbefore : ∀ q, newer' = some q → l.links.contains q = true := by
    intro q hq
    rw [hq] at hnewer
    exact h.contains (List.mem_append_left _ (List.mem_of_getLast? hnewer.symm))
  have hbehind : ∀ q, older' = some q → l.links.contains q = true := by
    intro q hq
    rw [hq] at holder
    exact h.contains (List.mem_append_right _ (List.mem_cons_of_mem p
      (List.mem_of_mem_head? holder.symm)))
  unfold Linked.detach? Linked.detach
  rw [hlink]
  simp only [Option.bind_eq_bind, Option.bind_some]
  cases newer' with
  | none =>
    cases older' with
    | none => rfl
    | some older =>
      apply change?_eq
      exact hbehind older rfl
  | some newer =>
    simp only [change?_eq (hbefore newer rfl), Option.bind_some]
    cases older' with
    | none => rfl
    | some older =>
      apply change?_eq
      exact (contains_modify _ _ _ _).trans (hbehind older rfl)

theorem Chained.attachFront?_eq {places : List Nat} (h : l.Chained places)
    (hlive : l.links.contains place = true) :
    l.attachFront? place = some (l.attachFront place) := by
  unfold Linked.attachFront? Linked.attachFront
  simp only [Option.bind_eq_bind, Option.bind_some, change?_eq hlive]
  cases hfront : l.front with
  | none => rfl
  | some previous =>
    have hprevious : l.links.contains previous = true :=
      h.contains (List.mem_of_mem_head? (h.front.symm.trans hfront))
    apply change?_eq
    exact (contains_modify _ _ _ _).trans hprevious

/-! ## Walking -/

/-- Where each link of a path names the place after it as the next, a walk meets the links of the path
and ends with it. -/
theorem walk_path {next : Link K → Option Nat} {path : List Nat}
    (hpath : ∀ before p after, path = before ++ p :: after →
      ∃ link, l.links.get? p = some link ∧ next link = after.head?)
    {fuel : Nat} (hfuel : path.length ≤ fuel) :
    (l.walk next fuel path.head?).map some = path.map l.links.get? := by
  induction path generalizing fuel with
  | nil => cases fuel <;> rfl
  | cons p path ih =>
    obtain ⟨fuel, rfl⟩ : ∃ rest, fuel = rest + 1 := ⟨fuel - 1, by simp at hfuel; omega⟩
    obtain ⟨link, hlink, hnext⟩ := hpath [] p path rfl
    have hrest := ih (fun before q after hsplit => hpath (p :: before) q after (by simp [hsplit]))
      (Nat.le_of_succ_le_succ hfuel)
    rw [List.head?_cons, walk, hlink]
    show some link :: (l.walk next fuel (next link)).map some = _
    rw [hnext, hrest, List.map_cons, hlink]

theorem Chained.forth {places : List Nat} (h : l.Chained places) {fuel : Nat}
    (hfuel : places.length ≤ fuel) :
    (l.walk Link.older fuel l.front).map some = places.map l.links.get? := by
  rw [h.front]
  refine walk_path (fun newer p older hsplit => ?_) hfuel
  obtain ⟨link, hlink, hbeside⟩ := Option.map_eq_some_iff.1 (h.beside newer p older hsplit)
  exact ⟨link, hlink, (Prod.mk.inj hbeside).2⟩

theorem Chained.back_again {places : List Nat} (h : l.Chained places) {fuel : Nat}
    (hfuel : places.length ≤ fuel) :
    l.walk Link.newer fuel l.back = (l.walk Link.older fuel l.front).reverse := by
  have hback : (l.walk Link.newer fuel l.back).map some = places.reverse.map l.links.get? := by
    rw [h.back, ← List.head?_reverse]
    refine walk_path (fun older p newer hsplit => ?_) (by rwa [List.length_reverse])
    have hplaces : places = newer.reverse ++ p :: older.reverse := by
      rw [← List.reverse_reverse places, hsplit]
      simp
    obtain ⟨link, hlink, hbeside⟩ :=
      Option.map_eq_some_iff.1 (h.beside newer.reverse p older.reverse hplaces)
    refine ⟨link, hlink, ?_⟩
    rw [(Prod.mk.inj hbeside).1, List.getLast?_reverse]
  apply List.map_injective_iff.2 (Option.some_injective (Link K))
  rw [hback, List.map_reverse, List.map_reverse, h.forth hfuel]

end CacheLayer.Linked
