import CacheLayer.Proofs.Keeping
import CacheLayer.Proofs.List.ReadWrite
import CacheLayer.Proofs.Sparse
import Mathlib.Data.List.Infix

/-!
# A read/write list is one map

Over a cache that loses nothing a read/write list is a sparse map: what is asked of it, with iterations
begun at any time and continued in between, is answered as by the map. Elements are converted on their
way in and back on their way out, and what is converted can be read back; so no operation but a set can
fail, and one that does leaves the cache as it was.

* `Shows` : the elements that the list gives are those of a table.
* `Shows.get`, `Shows.set`, `Shows.remove`, `Shows.clear`, `Shows.next` : what each operation answers and
  leaves behind.
* `Reading.run` : a list with the iterations over it, through any requests.
* `Accommodates` : which caches have room for all that is stored.
* `one_sparse_map` : a list over such a cache, which others may have used before, answers as the sparse
  map.
-/

namespace CacheLayer

universe u v w

variable {V : Type u} {S : Type v}

/-! ## Conversion -/

namespace Proxy

/-- Why an element cannot be stored, if it cannot. -/
def refusal (p : Proxy V S) (v : V) : Option CacheError :=
  match p.convert v with
  | .error e => some e
  | .ok _ => none

theorem refusal_of_error {p : Proxy V S} {v : V} {e : CacheError} (h : p.convert v = .error e) :
    p.refusal v = some e := by
  simp only [refusal, h]

theorem refusal_of_ok {p : Proxy V S} {v : V} {s : S} (h : p.convert v = .ok s) :
    p.refusal v = none := by
  simp only [refusal, h]

/-- What was converted can be restored. -/
def Faithful (p : Proxy V S) : Prop := ∀ v s, p.convert v = .ok s → p.restore s = .ok v

/-- What is stored is read as the elements of the table. -/
def Reads (p : Proxy V S) (stored : Table Nat S) (t : Table Nat V) : Prop :=
  ∀ i, (stored.get? i).map p.restore = (t.get? i).map .ok

variable {p : Proxy V S} {stored : Table Nat S} {t : Table Nat V}

theorem Reads.insert (h : p.Reads stored t) {s : S} {v : V} (hrestore : p.restore s = .ok v) (i : Nat) :
    p.Reads (stored.insert i s) (t.insert i v) := by
  intro j
  rw [Table.get?_insert, Table.get?_insert]
  split
  · exact congrArg some hrestore
  · exact h j

theorem Reads.erase (h : p.Reads stored t) (i : Nat) : p.Reads (stored.erase i) (t.erase i) := by
  intro j
  rw [Table.get?_erase, Table.get?_erase]
  split
  · rfl
  · exact h j

theorem Reads.contains (h : p.Reads stored t) (i : Nat) : stored.contains i = t.contains i := by
  have hi := congrArg Option.isSome (h i)
  rwa [Option.isSome_map, Option.isSome_map] at hi

theorem Reads.keys_perm (h : p.Reads stored t) : stored.keys.Perm t.keys := by
  refine Table.keys_perm t.nodup_keys fun i => ?_
  rw [h.contains, Table.mem_keys]

theorem Reads.size (h : p.Reads stored t) : stored.size = t.size := by
  have hlength := h.keys_perm.length_eq
  rwa [Table.length_keys, Table.length_keys] at hlength

theorem read_restored {s : Shared S} {v : V} (h : p.restore s.value = .ok v) (w : World) :
    (p.read w s).1.map Shared.value = .ok v ∧ (p.read w s).2.now = w.now ∧
      (p.read w s).2.area = w.area := by
  unfold read
  rw [h]
  dsimp only
  split
  · exact ⟨rfl, rfl, rfl⟩
  · exact ⟨rfl, rfl, rfl⟩

end Proxy

namespace ReadWriteList

open Backend

variable {room : Room S} {p : Proxy V S} {l : ReadWriteList V S} {w : World} {t : Table Nat V}

/-! ## What a list shows -/

/-- The list has the elements of the table, in a cache that loses nothing, and reads what it stores. -/
structure Shows (room : Room S) (p : Proxy V S) (l : ReadWriteList V S) (w : World)
    (t : Table Nat V) : Prop where
  plain : l.cache.layers = []
  proxy : l.proxy = p
  faithful : p.Faithful
  kept : ∃ stored, l.backend.Keeps room w stored ∧ p.Reads stored t

def withBackend (l : ReadWriteList V S) (c : Backend Nat S) : ReadWriteList V S :=
  l.usedBy c l.cache.store.calls

theorem Shows.withBackend (h : Shows room p l w t) {c : Backend Nat S} {w' : World} {stored : Table Nat S}
    {t' : Table Nat V} (hkeeps : c.Keeps room w' stored) (hreads : p.Reads stored t') :
    Shows room p (l.withBackend c) w' t' := ⟨h.plain, h.proxy, h.faithful, stored, hkeeps, hreads⟩

theorem Shows.congr (h : Shows room p l w t) {t' : Table Nat V} (ht : ∀ i, t.get? i = t'.get? i) :
    Shows room p l w t' := by
  obtain ⟨stored, hkeeps, hreads⟩ := h.kept
  exact ⟨h.plain, h.proxy, h.faithful, stored, hkeeps, fun i => ht i ▸ hreads i⟩

theorem Shows.elsewhere (h : Shows room p l w t) {w' : World} (hnow : w.now ≤ w'.now)
    (harea : w'.area = w.area) : Shows room p l w' t := by
  obtain ⟨stored, hkeeps, hreads⟩ := h.kept
  exact ⟨h.plain, h.proxy, h.faithful, stored, hkeeps.elsewhere hnow harea, hreads⟩

theorem shows_holding {α : Type w} {f : World → Step (ReadWriteList V S) (Note Nat S) α}
    (previous : Option (Shared V))
    (h : ∀ w' : World, w'.now = w.now → w'.area = w.area →
      Shows room p (f w').state (f w').world t) :
    Shows room p (holding w previous f).state (holding w previous f).world t := by
  unfold holding
  cases previous with
  | none => exact h w rfl rfl
  | some s => exact (h (w.hold s.id) rfl rfl).elsewhere (Nat.le_refl _) rfl

/-! ## Looking -/

theorem onCache_get (hplain : l.cache.layers = []) (w : World) (i : Nat) :
    l.onCache (·.get w i) =
      (((l.backend.get w i).mapState l.withBackend).mapAnswer .ok).mapLog .eviction := by
  obtain ⟨⟨store, layers⟩, proxy⟩ := l
  have hplain : layers = [] := hplain
  rw [hplain]
  rfl

theorem Shows.get (h : Shows room p l w t) (i : Nat) :
    (l.get w i).answer.map (Option.map Shared.value) = .ok (t.get? i) ∧
      Shows room p (l.get w i).state (l.get w i).world t := by
  obtain ⟨stored, hkeeps, hreads⟩ := h.kept
  obtain ⟨hfound, hafter⟩ := hkeeps.get i
  have hshows := h.withBackend hafter hreads
  have hread := hreads i
  rw [← hfound] at hread
  unfold ReadWriteList.get Step.bind
  rw [onCache_get h.plain]
  dsimp only [Step.mapState, Step.mapAnswer, Step.mapLog]
  cases hanswer : (l.backend.get w i).answer with
  | none =>
    rw [hanswer] at hread
    rw [Option.map_eq_none_iff.1 hread.symm]
    exact ⟨rfl, hshows⟩
  | some s =>
    rw [hanswer] at hread
    obtain ⟨v, hget, hrestore⟩ := Option.map_eq_some_iff.1 hread.symm
    obtain ⟨hvalue, hnow, harea⟩ := Proxy.read_restored hrestore.symm (l.backend.get w i).world
    have hproxy : (l.withBackend (l.backend.get w i).state).proxy = p := h.proxy
    dsimp only
    rw [hget, hproxy]
    refine ⟨?_, hshows.elsewhere hnow.ge harea⟩
    cases hshared : (p.read (l.backend.get w i).world s).1 with
    | error e =>
      rw [hshared] at hvalue
      cases hvalue
    | ok shared =>
      rw [hshared] at hvalue
      exact congrArg (Except.ok ∘ some) (Except.ok.inj hvalue)

theorem Shows.contains_eq (h : Shows room p l w t) (i : Nat) : l.contains w i = t.contains i := by
  obtain ⟨stored, hkeeps, hreads⟩ := h.kept
  exact (hkeeps.contains_eq i).trans (hreads.contains i)

theorem Shows.size (h : Shows room p l w t) :
    (l.size w).answer = t.size ∧ Shows room p (l.size w).state (l.size w).world t := by
  obtain ⟨stored, hkeeps, hreads⟩ := h.kept
  obtain ⟨hcounted, hafter⟩ := hkeeps.size
  exact ⟨hcounted.trans hreads.size, h.withBackend hafter hreads⟩

theorem Shows.isEmpty (h : Shows room p l w t) :
    (l.isEmpty w).answer = (t.size == 0) ∧ Shows room p (l.isEmpty w).state (l.isEmpty w).world t :=
  ⟨congrArg (· == 0) h.size.1, h.size.2⟩

theorem Shows.keys (h : Shows room p l w t) :
    (l.cache.keys w).answer.Perm t.keys ∧
      Shows room p (l.onCache (·.keys w)).state (l.onCache (·.keys w)).world t := by
  obtain ⟨stored, hkeeps, hreads⟩ := h.kept
  obtain ⟨hlisted, hafter⟩ := hkeeps.keys
  exact ⟨hlisted.trans hreads.keys_perm, h.withBackend hafter hreads⟩

theorem Shows.indices (h : Shows room p l w t) :
    (l.indices w).answer = Sparse.indices t ∧ Shows room p (l.indices w).state (l.indices w).world t :=
  ⟨Sparse.indices_eq_of_perm h.keys.1, h.keys.2⟩

/-! ## Setting and removing -/

theorem set_refused {v : V} {e : CacheError} (h : l.proxy.convert v = .error e) (w : World) (i : Nat) :
    l.set w i v = .pure (.error e) l w := by
  unfold ReadWriteList.set
  rw [h]

theorem value_of_answer {found : Found V} {o : Option V}
    (h : found.map (Option.map Shared.value) = .ok o) :
    found.toOption.join.map Shared.value = o := by
  cases found with
  | error e => cases h
  | ok previous => exact Except.ok.inj h

theorem Shows.before (h : Shows room p l w t) (i : Nat) :
    let before : Step (ReadWriteList V S) (Note Nat S) (Found V) :=
      if l.contains w i then l.get w i else .pure (.ok none) l w
    before.answer.map (Option.map Shared.value) = .ok (t.get? i) ∧
      Shows room p before.state before.world t := by
  intro before
  by_cases hcontains : l.contains w i = true
  · have hbefore : before = l.get w i := if_pos hcontains
    rw [hbefore]
    exact h.get i
  · have hbefore : before = .pure (.ok none) l w := if_neg hcontains
    rw [h.contains_eq, Bool.not_eq_true] at hcontains
    rw [hbefore, Table.get?_eq_none_of_contains hcontains]
    exact ⟨rfl, h⟩

theorem Shows.put (h : Shows room p l w t) {v : V} {s : S} (hconvert : p.convert v = .ok s)
    (hadmits : room.admits s) (i : Nat) (hroom : room.Fits (t.insert i v).size) :
    Shows room p (l.onCache (·.put w i (some s))).state (l.onCache (·.put w i (some s))).world
      (t.insert i v) := by
  obtain ⟨stored, hkeeps, hreads⟩ := h.kept
  have hafter := hreads.insert (h.faithful v s hconvert) i
  have hshared : l.backend.Keeps room (w.share s).2 stored :=
    hkeeps.elsewhere (Nat.le_refl _) rfl
  have hfits : room.Fits (stored.insert i s).size := hafter.size.symm ▸ hroom
  exact h.withBackend (hshared.insert i (w.share s).1 hadmits hfits) hafter

theorem Shows.set (h : Shows room p l w t) {v : V} {s : S} (hconvert : p.convert v = .ok s)
    (hadmits : room.admits s) (i : Nat) (hroom : room.Fits (t.insert i v).size) :
    (l.set w i v).answer.map (Option.map Shared.value) = .ok (t.get? i) ∧
      Shows room p (l.set w i v).state (l.set w i v).world (t.insert i v) := by
  obtain ⟨hfound, hshows⟩ := h.before i
  unfold ReadWriteList.set
  rw [h.proxy, hconvert]
  dsimp only at hfound hshows ⊢
  generalize (if l.contains w i = true then l.get w i else Step.pure (.ok none) l w) = before
    at hfound hshows
  have hput (w' : World) (hnow : w'.now = before.world.now) (harea : w'.area = before.world.area) :=
    (hshows.elsewhere hnow.ge harea).put hconvert hadmits i hroom
  exact ⟨congrArg Except.ok (value_of_answer hfound),
    shows_holding before.answer.toOption.join hput⟩

theorem Shows.drop (h : Shows room p l w t) (i : Nat) :
    Shows room p (l.onCache (·.remove w i)).state (l.onCache (·.remove w i)).world (t.erase i) := by
  obtain ⟨stored, hkeeps, hreads⟩ := h.kept
  exact h.withBackend (hkeeps.remove i).2 (hreads.erase i)

theorem Shows.remove (h : Shows room p l w t) (i : Nat) :
    (l.remove w i).answer.map (Option.map Shared.value) = .ok (t.get? i) ∧
      Shows room p (l.remove w i).state (l.remove w i).world (t.erase i) := by
  obtain ⟨hfound, hshows⟩ := h.get i
  cases hanswer : (l.get w i).answer with
  | error e =>
    rw [hanswer] at hfound
    cases hfound
  | ok previous =>
    rw [remove_of_ok hanswer]
    rw [hanswer] at hfound
    have hdropped (w' : World) (hnow : w'.now = (l.get w i).world.now)
        (harea : w'.area = (l.get w i).world.area) :=
      (hshows.elsewhere hnow.ge harea).drop i
    exact ⟨hfound, shows_holding previous hdropped⟩

/-! ## Clearing and iterating -/

theorem Shows.removeAll (h : Shows room p l w t) (is : List Nat) :
    Shows room p (l.removeAll w is).state (l.removeAll w is).world (is.foldl Table.erase t) := by
  induction is generalizing l w t with
  | nil => exact h
  | cons i is ih => exact ih (h.drop i)

theorem Shows.clear (h : Shows room p l w t) :
    Shows room p (l.clear w).state (l.clear w).world .empty := by
  have hlisted := h.keys
  have hcleared := hlisted.2.removeAll (l.cache.keys w).answer
  refine hcleared.congr fun i => ?_
  -- Every index of the table was listed, so none is left.
  rw [Table.get?_foldl_erase, Table.get?_empty]
  split
  · rfl
  · rename_i hi
    rw [hlisted.1.mem_iff, Table.mem_keys, Bool.not_eq_true] at hi
    rw [Table.get?_eq_none_of_contains hi]

/-- What a step of an iteration gives, and the indices that are left after it. -/
def Item.parts : Item V → Option (Except CacheError (Nat × Shared V)) × List Nat
  | some (given, left) => (some given, left)
  | none => (none, [])

theorem Shows.next (h : Shows room p l w t) (is : List Nat) :
    ((l.next w is).answer.parts.1.map (Except.map (Prod.map id Shared.value)) =
        (Sparse.visit t is).1.map .ok ∧
      (l.next w is).answer.parts.2 = (Sparse.visit t is).2) ∧
      Shows room p (l.next w is).state (l.next w is).world t := by
  induction is generalizing l w with
  | nil => exact ⟨⟨rfl, rfl⟩, h⟩
  | cons i is ih =>
    obtain ⟨hfound, hshows⟩ := h.get i
    cases hanswer : (l.get w i).answer with
    | error e =>
      rw [hanswer] at hfound
      cases hfound
    | ok found =>
      rw [hanswer] at hfound
      have hget : found.map Shared.value = t.get? i := Except.ok.inj hfound
      cases found with
      | none =>
        rw [next_of_missed hanswer, Sparse.visit_absent hget.symm]
        exact ih hshows
      | some s =>
        rw [next_of_found hanswer, Sparse.visit_present hget.symm]
        exact ⟨⟨rfl, rfl⟩, hshows⟩

/-! ## Any requests -/

/-- A list, and for each iteration that was begun over it the indices that are left. -/
structure Reading (V : Type u) (S : Type v) where
  list : ReadWriteList V S
  iterations : List (List Nat)

namespace Reading

def onList {α : Type w} (r : Reading V S)
    (f : ReadWriteList V S → Step (ReadWriteList V S) (Note Nat S) α) :
    Step (Reading V S) (Note Nat S) α :=
  (f r.list).mapState fun list => { r with list }

def serve (r : Reading V S) (w : World) :
    ListRequest V → Step (Reading V S) (Note Nat S) (ListReply (Shared V))
  | .set i v => (r.onList (·.set w i v)).mapAnswer .element
  | .get i => (r.onList (·.get w i)).mapAnswer .element
  | .remove i => (r.onList (·.remove w i)).mapAnswer .element
  | .contains i => .pure (.truth (r.list.contains w i)) r w
  | .size => (r.onList (·.size w)).mapAnswer .count
  | .isEmpty => (r.onList (·.isEmpty w)).mapAnswer .truth
  | .indices => (r.onList (·.indices w)).mapAnswer .indices
  | .clear => (r.onList (·.clear w)).mapAnswer fun _ => .done
  | .iterate => (r.onList (·.indices w)).bind fun is r w =>
    .pure .done { r with iterations := r.iterations ++ [is] } w
  | .next number =>
    (r.onList (·.next w (r.iterations.getD number []))).bind fun item r w =>
      .pure (.item item.parts.1) { r with iterations := r.iterations.set number item.parts.2 } w

def run (r : Reading V S) (w : World) :
    List (Nat × ListRequest V) → Step (Reading V S) (Note Nat S) (List (ListReply (Shared V)))
  | [] => .pure [] r w
  | (wait, ask) :: asks => (r.serve (w.advance wait) ask).bind fun reply r w =>
    (r.run w asks).mapAnswer (reply :: ·)

/-- List and map have the same elements, and the same is left to their iterations. -/
structure Resembles (room : Room S) (p : Proxy V S) (r : Reading V S) (w : World) (s : Sparse V) :
    Prop where
  shows : Shows room p r.list w s.elements
  iterations : r.iterations = s.iterations

namespace Resembles

variable {r : Reading V S} {s : Sparse V}

theorem set (h : Resembles room p r w s) (i : Nat) (v : V)
    (hadmits : ∀ stored, p.convert v = .ok stored → room.admits stored)
    (hroom : room.Fits (s.serve p.refusal (.set i v)).2.elements.size) :
    (r.serve w (.set i v)).answer.map Shared.value = (s.serve p.refusal (.set i v)).1 ∧
      Resembles room p (r.serve w (.set i v)).state (r.serve w (.set i v)).world
        (s.serve p.refusal (.set i v)).2 := by
  cases hconvert : p.convert v with
  | error e =>
    have hserve : r.serve w (.set i v) = .pure (.element (.error e)) r w := by
      show (r.onList (·.set w i v)).mapAnswer ListReply.element = _
      unfold onList
      dsimp only
      rw [set_refused (h.shows.proxy ▸ hconvert)]
      rfl
    rw [hserve, Sparse.serve_set_refused (Proxy.refusal_of_error hconvert)]
    exact ⟨rfl, h⟩
  | ok stored =>
    rw [Sparse.serve_set_stored (Proxy.refusal_of_ok hconvert)] at hroom ⊢
    obtain ⟨hanswer, hshows⟩ := h.shows.set hconvert (hadmits stored hconvert) i hroom
    exact ⟨congrArg ListReply.element hanswer, hshows, h.iterations⟩

theorem next (h : Resembles room p r w s) (number : Nat) :
    (r.serve w (.next number)).answer.map Shared.value = (s.serve p.refusal (.next number)).1 ∧
      Resembles room p (r.serve w (.next number)).state (r.serve w (.next number)).world
        (s.serve p.refusal (.next number)).2 := by
  obtain ⟨⟨hgiven, hleft⟩, hshows⟩ := h.shows.next (r.iterations.getD number [])
  refine ⟨?_, hshows, ?_⟩
  · show ListReply.item ((r.list.next w (r.iterations.getD number [])).answer.parts.1.map _) = _
    rw [hgiven, h.iterations]
    rfl
  · show r.iterations.set number (r.list.next w (r.iterations.getD number [])).answer.parts.2 = _
    rw [hleft, h.iterations]
    rfl

/-- List and map answer a request alike and are alike after it. -/
theorem serve (h : Resembles room p r w s) (ask : ListRequest V)
    (hadmits : ∀ i v stored, ask = .set i v → p.convert v = .ok stored → room.admits stored)
    (hroom : room.Fits (s.serve p.refusal ask).2.elements.size) :
    (r.serve w ask).answer.map Shared.value = (s.serve p.refusal ask).1 ∧
      Resembles room p (r.serve w ask).state (r.serve w ask).world (s.serve p.refusal ask).2 := by
  cases ask with
  | set i v => exact h.set i v (fun stored => hadmits i v stored rfl) hroom
  | get i =>
    obtain ⟨hanswer, hshows⟩ := h.shows.get i
    exact ⟨congrArg ListReply.element hanswer, hshows, h.iterations⟩
  | remove i =>
    obtain ⟨hanswer, hshows⟩ := h.shows.remove i
    exact ⟨congrArg ListReply.element hanswer, hshows, h.iterations⟩
  | contains i => exact ⟨congrArg ListReply.truth (h.shows.contains_eq i), h⟩
  | size =>
    obtain ⟨hanswer, hshows⟩ := h.shows.size
    exact ⟨congrArg ListReply.count hanswer, hshows, h.iterations⟩
  | isEmpty =>
    obtain ⟨hanswer, hshows⟩ := h.shows.isEmpty
    exact ⟨congrArg ListReply.truth hanswer, hshows, h.iterations⟩
  | indices =>
    obtain ⟨hanswer, hshows⟩ := h.shows.indices
    exact ⟨congrArg ListReply.indices hanswer, hshows, h.iterations⟩
  | clear => exact ⟨rfl, h.shows.clear, h.iterations⟩
  | iterate =>
    obtain ⟨hanswer, hshows⟩ := h.shows.indices
    refine ⟨rfl, hshows, ?_⟩
    show r.iterations ++ [(r.list.indices w).answer] = s.iterations ++ [Sparse.indices s.elements]
    rw [hanswer, h.iterations]
  | next number => exact h.next number

theorem run (h : Resembles room p r w s) (asks : List (Nat × ListRequest V))
    (hadmits : ∀ i v stored, .set i v ∈ asks.map Prod.snd → p.convert v = .ok stored →
      room.admits stored)
    (hroom : ∀ count, room.Fits (s.after p.refusal ((asks.map Prod.snd).take count)).elements.size) :
    (r.run w asks).answer.map (ListReply.map Shared.value) =
      s.run p.refusal (asks.map Prod.snd) := by
  induction asks generalizing r w s with
  | nil => rfl
  | cons ask asks ih =>
    obtain ⟨wait, ask⟩ := ask
    have hlater : Resembles room p r (w.advance wait) s :=
      ⟨h.shows.elsewhere (Nat.le_add_right _ _) rfl, h.iterations⟩
    obtain ⟨hanswer, hafter⟩ := hlater.serve ask
      (fun i v stored hask => hadmits i v stored (hask ▸ List.mem_cons_self)) (hroom 1)
    have hrest := ih hafter (fun i v stored hmem => hadmits i v stored (List.mem_cons_of_mem _ hmem))
      fun count => hroom (count + 1)
    exact congrArg₂ List.cons hanswer hrest

end Resembles

end Reading

/-- A cache with these options has room for all that is stored, first by `used` and then by the requests to
a list with the elements of `t`: it is in memory alone, or it has two tiers in a directory that can be
written, they take as many elements as there are at any time, and its codec reads back what is stored. -/
inductive Accommodates (b : Builder) (st : Storage Nat S) (w : World) (p : Proxy V S)
    (used : List (Nat × MapRequest Nat (Shared S))) (t : Table Nat V) (asks : List (ListRequest V)) :
    CacheType → Prop
  | volatile : Accommodates b st w p used t asks .volatile
  | tiers {n m : Nat} (persistence : b.config.persistence = .swapOnOverflow)
    (memory : b.config.memoryBound = .entries n) (disk : b.config.diskBound = .entries m)
    (writable : ∀ number name, w.area.unwritable number name = false)
    (readable : ∀ wait i value, (wait, .insert i value) ∈ used → st.codec.RoundTrips value.value)
    (written : ∀ i v stored, .set i v ∈ asks → p.convert v = .ok stored → st.codec.RoundTrips stored)
    (room : ∀ count, (Sparse.after p.refusal ⟨t, []⟩ (asks.take count)).elements.size ≤ n + m) :
    Accommodates b st w p used t asks .diskOverflow

theorem Accommodates.takes {b : Builder} {st : Storage Nat S} {kind : CacheKind} {w w' : World}
    {c : Backend Nat S} {p : Proxy V S} {used : List (Nat × MapRequest Nat (Shared S))}
    {t : Table Nat V} {asks : List (ListRequest V)} (h : Accommodates b st w p used t asks c.cacheType)
    (hbuilt : b.buildKind st w kind = (.ok c, w')) (hlive : b.config.timeToLive = none)
    (hidle : b.config.timeToIdle = none) :
    ∃ room : Room S, c.Keeps room w' .empty ∧
      (∀ wait i value, (wait, .insert i value) ∈ used → room.admits value.value) ∧
      (∀ i v stored, .set i v ∈ asks → p.convert v = .ok stored → room.admits stored) ∧
      ∀ count, room.Fits (Sparse.after p.refusal ⟨t, []⟩ (asks.take count)).elements.size := by
  cases made_of_buildKind hbuilt with
  | volatile hmade =>
    exact ⟨.endless, keeps_of_volatile hmade hlive hidle, fun _ _ _ _ => trivial,
      fun _ _ _ _ _ => trivial, nofun⟩
  | overflow hmade =>
    cases h with
    | tiers persistence memory disk writable readable written room =>
      exact ⟨_, keeps_of_tiers hmade hlive hidle persistence memory disk writable, readable, written,
        fun count limit hlimit => Option.some.inj hlimit ▸ room count⟩
  | soft _ => cases h
  | absent => cases h

/-- A list over a cache that loses nothing answers any requests, whenever they come, as the sparse map
does that has the elements with which the list begins; wherever indices are listed they are ascending,
and in ascending order an iteration gives them. An element that cannot be converted changes neither list
nor cache. -/
theorem one_sparse_map {b : Builder} {st : Storage Nat S} {kind : CacheKind} {w w' : World}
    {c : Backend Nat S} (hbuilt : b.buildKind st w kind = (.ok c, w'))
    (hlive : b.config.timeToLive = none) (hidle : b.config.timeToIdle = none) {p : Proxy V S}
    (hp : ∀ v s, p.convert v = .ok s → p.restore s = .ok v)
    (used : List (Nat × MapRequest Nat (Shared S))) (t : Table Nat V)
    (hstart : ∀ i, ((c.use w' used).state.get (c.use w' used).world i).answer.map
      (fun s => p.restore s.value) = (t.get? i).map .ok)
    (asks : List (Nat × ListRequest V))
    (hroom : Accommodates b st w p used t (asks.map Prod.snd) c.cacheType) :
    let l : ReadWriteList V S := ⟨.plain (c.use w' used).state, p⟩
    let replies := ((Reading.run ⟨l, []⟩ (c.use w' used).world asks).answer).map
      (ListReply.map Shared.value)
    replies = Sparse.run p.refusal ⟨t, []⟩ (asks.map Prod.snd) ∧
      (∀ is, .indices is ∈ replies → is.Pairwise (· < ·)) ∧
      (∀ number, (Sparse.yielded number ((asks.map Prod.snd).zip replies)).Pairwise (· < ·)) ∧
      ∀ (l' : ReadWriteList V S) (w : World) i v e, l'.proxy.convert v = .error e →
        l'.set w i v = .pure (.error e) l' w := by
  intro l replies
  obtain ⟨room, hempty, hreadable, hwritten, hfits⟩ := hroom.takes hbuilt hlive hidle
  obtain ⟨stored, hkeeps⟩ := hempty.use used hreadable
  have hreads : p.Reads stored t := by
    intro i
    rw [← (hkeeps.get i).1, Option.map_map]
    exact hstart i
  have hresembles : Reading.Resembles room p ⟨l, []⟩ (c.use w' used).world ⟨t, []⟩ :=
    ⟨⟨rfl, rfl, hp, stored, hkeeps, hreads⟩, rfl⟩
  have hreplies : replies = Sparse.run p.refusal ⟨t, []⟩ (asks.map Prod.snd) :=
    hresembles.run asks hwritten hfits
  refine ⟨hreplies, fun is his => ?_, fun number => ?_, fun l' w i v e hrefused => ?_⟩
  · rw [hreplies] at his
    exact Sparse.listed_ascending p.refusal _ _ his
  · rw [hreplies]
    exact Sparse.yielded_ascending p.refusal _ rfl
  · exact set_refused hrefused w i

/-- Stores the predecessor of a byte, and refuses zero. -/
def predecessors : Proxy UInt8 UInt8 where
  convert v := if v = 0 then .error (.serialization "zero") else .ok (v - 1)
  restore s := .ok (s + 1)
  passThrough := false

theorem faithful_predecessors : predecessors.Faithful := by
  intro v s hconvert
  unfold predecessors at hconvert ⊢
  dsimp only at hconvert ⊢
  split at hconvert
  · cases hconvert
  · rw [← Except.ok.inj hconvert, UInt8.sub_add_cancel]

/-- Requests to a list that has one element at first and never more than two. -/
def pairAsks : List (Nat × ListRequest UInt8) :=
  [(0, .set 2 7), (3, .iterate), (0, .get 5), (0, .set 2 0), (0, .set 2 6), (0, .next 0),
    (0, .remove 5), (0, .set 1 4), (0, .next 0), (0, .indices)]

/-- A list over a cache of one entry in memory and one on disk. Zero is refused, and an iteration passes
over the element that is removed and does not see the one that is new. -/
theorem one_sparse_map_pair :
    let c := (Backend.overflow (pairCache none none)).use pairWorld [(0, .insert 5 ⟨0, 8⟩)]
    let l : ReadWriteList UInt8 UInt8 := ⟨.plain c.state, predecessors⟩
    (Reading.run ⟨l, []⟩ c.world pairAsks).answer.map (ListReply.map Shared.value) =
      [.element (.ok none), .done, .element (.ok (some 9)),
        .element (.error (.serialization "zero")), .element (.ok (some 7)),
        .item (some (.ok (2, 6))), .element (.ok (some 9)), .element (.ok none), .item none,
        .indices [1, 2]] := by
  intro c l
  have hbuilt : (pairBuilder none none).buildKind byteStorage bareWorld .diskOverflow =
      (.ok (.overflow (pairCache none none)), pairWorld) := by
    simp only [Builder.buildKind, pair_built]
    rfl
  have hroundtrips (v : UInt8) : byteStorage.codec.RoundTrips v := ⟨[v], rfl, rfl⟩
  have hempty : (Backend.overflow (pairCache none none)).Keeps (.tiers 1 1 byteStorage.codec)
      (pairWorld.advance 0) .empty :=
    (keeps_of_tiers (pair_built none none) rfl rfl rfl rfl rfl fun _ _ => rfl).elsewhere
      (Nat.le_refl _) rfl
  have hfits : (Room.tiers 1 1 byteStorage.codec).Fits (Table.insert .empty 5 (8 : UInt8)).size := by
    intro limit hlimit
    rw [← Option.some.inj hlimit]
    decide
  have hkeeps := hempty.insert 5 ⟨0, 8⟩ (hroundtrips 8) hfits
  have hreads : predecessors.Reads (.insert .empty 5 8) (.insert .empty 5 9) :=
    Proxy.Reads.insert (fun _ => rfl) rfl 5
  have hstart (i : Nat) : (c.state.get c.world i).answer.map (fun s => predecessors.restore s.value) =
      ((Table.insert .empty 5 9).get? i).map .ok := by
    rw [← hreads i, ← (hkeeps.get i).1, Option.map_map]
    rfl
  have hsmall : ∀ asks ∈ (pairAsks.map Prod.snd).inits,
      (Sparse.after predecessors.refusal ⟨.insert .empty 5 9, []⟩ asks).elements.size ≤ 1 + 1 := by
    decide
  have hroom : Accommodates (pairBuilder none none) byteStorage bareWorld predecessors
      [(0, .insert 5 ⟨0, 8⟩)] (.insert .empty 5 9) (pairAsks.map Prod.snd) .diskOverflow :=
    .tiers rfl rfl rfl (fun _ _ => rfl) (fun _ _ value _ => hroundtrips value.value)
      (fun _ _ stored _ _ => hroundtrips stored)
      fun count => hsmall _ ((List.mem_inits _ _).2 (List.take_prefix count _))
  have hrun := one_sparse_map hbuilt rfl rfl faithful_predecessors [(0, .insert 5 ⟨0, 8⟩)]
    (.insert .empty 5 9) hstart pairAsks hroom
  -- The indices are listed twice, and in ascending order both times as they were put there.
  have hfirst : Sparse.indices (.insert (.insert .empty 5 9) 2 (7 : UInt8)) = [2, 5] :=
    List.mergeSort_of_pairwise (by decide)
  have hlast : Sparse.indices (.insert (.erase (.insert (.insert (.insert .empty 5 9) 2 7) 2 6) 5) 1
      (4 : UInt8)) = [1, 2] := List.mergeSort_of_pairwise (by decide)
  have hrefused : predecessors.refusal 0 = some (.serialization "zero") := rfl
  have hstored : predecessors.refusal 7 = none ∧ predecessors.refusal 6 = none ∧
      predecessors.refusal 4 = none := ⟨rfl, rfl, rfl⟩
  refine hrun.1.trans ?_
  simp only [pairAsks, List.map_cons, List.map_nil, Sparse.run, Sparse.serve, hrefused, hstored, hfirst,
    hlast]
  rfl

end ReadWriteList

end CacheLayer
