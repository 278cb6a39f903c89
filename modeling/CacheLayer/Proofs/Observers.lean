import CacheLayer.Cache
import CacheLayer.Proofs.Overflow.Intact
import CacheLayer.Proofs.Overflow.Purging
import CacheLayer.Proofs.Soft
import CacheLayer.Proofs.Volatile.Run

/-!
# The observers of a cache agree

Listing the keys, counting them, asking whether a key is present and looking it up go different ways in
each kind of cache: some purge first, some sweep, some read an index, some the stamps. Asked of one and
the same state, at one reading of the clock, they tell the same.

* `Cache.ObserversAgree` : what it is to tell the same.
* `Overflow.observers`, `Volatile.observers`, `Soft.observers` : each kind of cache.
* `Backend.Unharmed` : the states of a cache whose files nobody damages.
* `Backend.observers_agree` : in those states the observers agree.
-/

namespace CacheLayer

variable {K : Type u} {V : Type v} [DecidableEq K]

/-- Each listed key is listed once and is one that is present, that a look-up finds and that is
counted. -/
structure Cache.ObserversAgree (c : Cache K V) (w : World) : Prop where
  nodup : (c.keys w).answer.Nodup
  listed : ∀ k, k ∈ (c.keys w).answer ↔ c.contains w k = true
  found : ∀ k, c.contains w k = true ↔ ∃ value, (c.get w k).answer = .ok (some value)
  counted : (c.size w).answer = (c.keys w).answer.length
  empty : (c.isEmpty w).answer = true ↔ (c.keys w).answer = []

theorem Cache.observersAgree_plain {c : Backend K V} {w : World}
    (hnodup : (c.keys w).answer.Nodup)
    (hlisted : ∀ k, k ∈ (c.keys w).answer ↔ c.contains w k = true)
    (hfound : ∀ k, c.contains w k = (c.get w k).answer.isSome)
    (hcounted : (c.size w).answer = (c.keys w).answer.length) :
    (Cache.plain c).ObserversAgree w where
  nodup := hnodup
  listed := hlisted
  found k := by
    show c.contains w k = true ↔ ∃ value, (.ok (c.get w k).answer : Found V) = .ok (some value)
    rw [hfound, Option.isSome_iff_exists]
    simp only [Except.ok.injEq]
  counted := hcounted
  empty := by
    show ((c.size w).answer == 0) = true ↔ _
    rw [beq_iff_eq, hcounted]
    exact List.length_eq_zero_iff

/-! ## Each kind of cache -/

theorem Overflow.observers {c : Overflow K V} {w : World} {own : Option TierPlace} (h : c.Sound)
    (hdated : c.Dated) (hintact : Intact own c w.area) :
    (Cache.plain (.overflow c)).ObserversAgree w := by
  apply Cache.observersAgree_plain
  · exact c.nodup_keys w
  · exact h.mem_keys hdated w
  · intro k
    show c.contains w k = (c.get w k).answer.isSome
    rw [h.contains_eq hdated, Overflow.get_answer, hintact.isSome_peek]
  · exact c.size_answer w

theorem Volatile.observers {c : Volatile K V} (h : c.Placed) (w : World) :
    (Cache.plain (.volatile c)).ObserversAgree w := by
  apply Cache.observersAgree_plain
  · exact h.nodup_keys w.now
  · intro k
    show k ∈ c.keys w.now ↔ c.contains w.now k = true
    rw [h.mem_keys, Volatile.contains_eq_isSome]
  · intro k
    show c.contains w.now k = (c.get w.now k).answer.isSome
    rw [Volatile.contains_eq_isSome, Volatile.get_answer_eq, Option.isSome_map]
  · rfl

/-- The sweep that comes before listing changes nothing that is live. -/
theorem Soft.observers (c : Soft K V) (w : World) :
    (Cache.plain (.soft c)).ObserversAgree w := by
  apply Cache.observersAgree_plain
  · exact Table.nodup_keys _
  · intro k
    show k ∈ ((c.sweep w).cache.handles.keep fun _ s => (c.sweep w).cache.alive w s).keys ↔
      c.contains w k = true
    rw [Table.mem_keys, Table.contains_eq, Table.get?_keep, Soft.contains_eq, ← c.live?_sweep w k]
    rfl
  · intro k
    show c.contains w k = (c.get w k).answer.isSome
    rw [Soft.contains_eq, Soft.get_answer]
  · rfl

/-! ## Every reachable state -/

namespace Backend

/-- The states of a cache that was built and taken through any operations, while nobody damages its
files and what it stores can be read from them, and the worlds around it. In those that keep no files
nobody can do harm. -/
inductive Unharmed : Backend K V → World → Prop
  | overflow {b : Builder} {st : Storage K V} {w w' : World} {c : Overflow K V}
    (hbuilt : b.buildOverflow st w = (.ok c, w')) (turns : List (Overflow.Turn K V))
    (hturns : ∀ turn ∈ turns, turn.op.Harmless st.codec c.place) (wait : Nat) :
    Unharmed (.overflow (c.run w' turns).state) ((c.run w' turns).world.advance wait)
  | volatile {b : Builder} {st : Storage K V} {w : World} {c : Volatile K V}
    (hbuilt : b.buildVolatile st w = .ok c) (turns : List (MapTurn K (Shared V))) (w' : World) :
    Unharmed (.volatile (c.run w.now turns).cache) w'
  | soft {b : Builder} {w : World} {c : Soft K V} (hbuilt : b.buildSoft w = .ok c)
    (turns : List (World × Soft.Op K V)) (w' : World) : Unharmed (.soft (c.run turns).cache) w'

/-- Of a cache of any kind, in every state that it reaches without damage to its files, the listed keys
are distinct, and they are those that are present, those that a look-up finds and those that are
counted. -/
theorem observers_agree {c : Backend K V} {w : World} (h : c.Unharmed w) :
    (Cache.plain c).ObserversAgree w := by
  cases h with
  | @overflow b st w w' c hbuilt turns hturns wait =>
    have hstart := Builder.built hbuilt
    have hsound := Overflow.sound_run (w := w') turns hstart.sound
    have hdated := Overflow.dated_run (w := w') hstart.sound (fun _ => hstart.everyStamp) turns
    exact Overflow.observers hsound hdated (Overflow.intact_run hstart turns hturns)
  | volatile hbuilt turns =>
    exact Volatile.observers (Volatile.placed_run (Volatile.placed_of_built hbuilt) _ turns) w
  | soft hbuilt turns => exact Soft.observers _ w

/-- One entry was spilled and expires on disk; the observers tell of the other alone. -/
theorem observers_agree_spilled :
    let turns : List (Overflow.Turn Nat UInt8) :=
      [⟨0, .request (.insert 1 ⟨0, 7⟩)⟩, ⟨50, .request (.insert 2 ⟨1, 8⟩)⟩]
    let c := (pairCache (some ⟨100⟩) none).run pairWorld turns
    (Cache.plain (.overflow c.state)).ObserversAgree (c.world.advance 60) ∧
      c.state.onDisk 1 = true ∧
      ((Cache.plain (.overflow c.state)).keys (c.world.advance 60)).answer = [2] := by
  intro turns c
  refine ⟨observers_agree (.overflow (pair_built _ _) turns ?_ 60), by decide, by decide⟩
  intro turn hturn
  rcases List.mem_pair.1 hturn with rfl | rfl
  · exact faithful_byteStorage.lasting 7
  · exact faithful_byteStorage.lasting 8

end Backend

end CacheLayer
