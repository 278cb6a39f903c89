import CacheLayer.Proofs.Events
import CacheLayer.Proofs.Soft

/-!
# What a soft cache tells, counts and shows

Of a reclaimed entry the listener is told the key, for its object is dead; of a removed one it is
shown the object, which is the one stored under the key, whoever kept it alive.

* `tell_perform` : what an operation tells is what it counts.
* `Recalls` : the handles are of the objects stored last; `Recalls.perform` : every operation keeps
  that.
* `Recalls.shown` : so are the objects that are shown.
-/

namespace CacheLayer.Soft

variable {K : Type u} {V : Type v} {c : Soft K V} {w : World} {event : Eviction K V} {x : Shared V}

/-! ## What is told is counted -/

def books (c : Soft K V) : Books := ⟨c.metrics, 0⟩

variable [DecidableEq K] {k : K}

theorem tell_purge (c : Soft K V) (w : World) (k : K) :
    Books.Tell c.books (c.purge w k).cache.books (c.purge w k).events 0 := by
  unfold purge
  split
  · exact .refl _
  · split
    · exact .refl _
    · exact .reclaim c.metrics 0 k none

theorem tell_purgeAll (ks : List K) (c : Soft K V) (w : World) :
    Books.Tell c.books (c.purgeAll w ks).cache.books (c.purgeAll w ks).events 0 := by
  induction ks generalizing c with
  | nil => exact .refl _
  | cons k ks ih => exact (c.tell_purge w k).trans (ih _)

theorem tell_sweep (c : Soft K V) (w : World) :
    Books.Tell c.books (c.sweep w).cache.books (c.sweep w).events 0 :=
  tell_purgeAll c.heap.drain.1 { c with heap := c.heap.drain.2 } w

theorem tell_insert (c : Soft K V) (w : World) (k : K) (value : Shared V) :
    Books.Tell c.books (c.insert w k value).cache.books (c.insert w k value).events 0 := by
  have hcounted : Books.Tell c.books ⟨{ c.metrics with inserts := c.metrics.inserts + 1 }, 0⟩
      ([] : List (Eviction K V)) 0 := .insert c.metrics 0
  exact hcounted.trans (tell_sweep { c with
    heap := c.heap.retain k value
    handles := c.handles.insert k value
    metrics := { c.metrics with inserts := c.metrics.inserts + 1 } } w)

theorem tell_remove (c : Soft K V) (w : World) (k : K) :
    Books.Tell c.books (c.remove w k).cache.books (c.remove w k).events 0 := by
  unfold remove
  dsimp only
  split
  · rename_i s _
    exact .remove c.metrics 0 k (some s)
  · exact .refl _

theorem tell_get (c : Soft K V) (w : World) (k : K) :
    Books.Tell c.books (c.get w k).cache.books (c.get w k).events 1 := by
  have hcounted {c' : Soft K V} {events : List (Eviction K V)} {m : Metrics}
      (hswept : Books.Tell c.books c'.books events 0)
      (hm : Books.Tell c'.books ⟨m, 0⟩ ([] : List (Eviction K V)) 1) :
      Books.Tell c.books ⟨m, 0⟩ events 1 := by
    have h := hswept.trans hm
    rwa [List.append_nil] at h
  have hswept := c.tell_sweep w
  unfold get
  dsimp only
  split
  · exact hcounted hswept (.miss _ 0)
  · split
    · exact hcounted hswept (.hit _ 0)
    · exact hcounted (hswept.trans ((c.sweep w).cache.tell_purge w k)) (.miss _ 0)

def Op.lookups : Op K V → Nat
  | .request r => r.lookups
  | _ => 0

theorem tell_perform (c : Soft K V) (w : World) (op : Op K V) :
    Books.Tell c.books (c.perform w op).cache.books (c.perform w op).events op.lookups := by
  cases op with
  | request r =>
    cases r with
    | insert k value => exact c.tell_insert w k value
    | remove k => exact c.tell_remove w k
    | get k => exact c.tell_get w k
    | contains k => exact .refl _
    | keys => exact c.tell_sweep w
    | size => exact c.tell_sweep w
  | close => exact .refl _
  | heap op => exact .refl _

/-! ## What is shown was stored last -/

def Recalls (c : Soft K V) (stored : K → Option (Shared V)) : Prop :=
  ∀ k s, c.handles.get? k = some s → stored k = some s

def Op.storing (stored : K → Option (Shared V)) : Op K V → K → Option (Shared V)
  | .request r => r.storing stored
  | _ => stored

variable {stored : K → Option (Shared V)}

theorem Recalls.perform (h : c.Recalls stored) (w : World) (op : Op K V) :
    (c.perform w op).cache.Recalls (op.storing stored) := by
  intro k s hs
  have hkept : (∀ s', op ≠ .request (.insert k s')) → stored k = some s := fun hop =>
    h k s ((handles_perform hs).resolve_right (hop s))
  cases op with
  | request r =>
    cases r with
    | insert k' value =>
      have hs : (c.handles.insert k' value).get? k = some s := handles_sweep hs
      show Function.update stored k' (some value) k = some s
      rw [Table.get?_insert] at hs
      split at hs
      · rename_i hk
        rw [hk, Function.update_self, hs]
      · rename_i hk
        rw [Function.update_of_ne hk]
        exact h k s hs
    | _ => exact hkept (by rintro _ ⟨⟩)
  | _ => exact hkept (by rintro _ ⟨⟩)

theorem shown_purge (hevent : event ∈ (c.purge w k).events) :
    event.value = none := by
  unfold purge at hevent
  split at hevent
  · cases hevent
  · split at hevent
    · cases hevent
    · rw [List.mem_singleton.1 hevent]

theorem shown_sweep (hevent : event ∈ (c.sweep w).events) : event.value = none := by
  have hall (ks : List K) (c : Soft K V) (hevent : event ∈ (c.purgeAll w ks).events) :
      event.value = none := by
    induction ks generalizing c with
    | nil => cases hevent
    | cons k ks ih =>
      rcases List.mem_append.1 hevent with hfirst | hlater
      · exact shown_purge hfirst
      · exact ih _ hlater
  exact hall _ { c with heap := c.heap.drain.2 } hevent

theorem shown_get (hevent : event ∈ (c.get w k).events) : event.value = none := by
  unfold get at hevent
  dsimp only at hevent
  split at hevent
  · exact shown_sweep hevent
  · split at hevent
    · exact shown_sweep hevent
    · rcases List.mem_append.1 hevent with hswept | hpurged
      · exact shown_sweep hswept
      · exact shown_purge hpurged

theorem Recalls.shown_remove (h : c.Recalls stored) (hc : c.Tied)
    (hevent : event ∈ (c.remove w k).events) (hx : event.value = some x) :
    stored event.key = some x := by
  have hkey : event.key = k := by
    unfold remove at hevent
    dsimp only at hevent
    split at hevent
    · rw [List.mem_singleton.1 hevent]
    · cases hevent
  have hgiven : x ∈ (c.remove w k).events.filterMap Eviction.value :=
    List.mem_filterMap.2 ⟨event, hevent, hx⟩
  rw [hkey]
  rcases given_of_remove hgiven with hretained | ⟨hstored, -⟩
  · exact h k x (hc k x hretained)
  · exact h k x hstored

theorem Recalls.shown (h : c.Recalls stored) (hc : c.Tied) {op : Op K V}
    (hevent : event ∈ (c.perform w op).events) (hx : event.value = some x) :
    op.storing stored event.key = some x := by
  have hnone (hvalue : event.value = none) : op.storing stored event.key = some x := by
    rw [hx] at hvalue
    cases hvalue
  cases op with
  | request r =>
    cases r with
    | insert k value => exact hnone (shown_sweep hevent)
    | remove k => exact h.shown_remove hc hevent hx
    | get k => exact hnone (shown_get hevent)
    | contains k => cases hevent
    | keys => exact hnone (shown_sweep hevent)
    | size => exact hnone (shown_sweep hevent)
  | close => cases hevent
  | heap op => cases hevent

end CacheLayer.Soft
