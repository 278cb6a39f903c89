import CacheLayer.Proofs.Populating
import CacheLayer.Proofs.SameStory

/-!
# Two fetch modes under one caller

A layer that looks again before it asks its provider does, for one caller, what a layer does that asks
at once: the same answers, calls, events, contents and world. The second look is a look-up of the cache
below like any other, so a look-up in vain is counted twice there, and that is the whole difference.

* `Cache.Call`, `Cache.serve`, `Cache.run` : everything that is asked of a cache, with the answers.
* `Cache.twin` : the same cache with a layer that looks again, and with more misses counted.
* `Cache.Under.serve_twin`, `Cache.Under.run_twin` : the twin does what the cache does.
* `Cache.finds`, `Cache.looked` : the look-ups that are made, and whether each found its key.
* `Cache.fetch_modes_agree` : both modes of any built cache, over any calls.
-/

namespace CacheLayer

variable {K : Type u} {V : Type v}

theorem Backend.Orderly.missed [DecidableEq K] {c : Backend K V} (h : c.Orderly) (d : Nat) :
    (c.missed d).Orderly := by
  cases c with
  | overflow c => exact Overflow.Sound.withMetrics h _
  | _ => trivial

namespace Store

/-- The store whose backend has so many more misses counted. -/
def twin (d : Nat) (s : Store K V) : Store K V := { s with backend := s.backend.missed d }

theorem twin_twin (s : Store K V) (d d' : Nat) : (s.twin d).twin d' = s.twin (d + d') := by
  unfold twin
  dsimp only
  rw [Backend.missed_missed]

theorem onBackend_twin {α : Type w} (s : Store K V) (d : Nat)
    {f : Backend K V → Step (Backend K V) (Eviction K V) α}
    (hf : f (s.backend.missed d) = (f s.backend).mapState (Backend.missed d)) :
    (s.twin d).onBackend f = (s.onBackend f).mapState (twin d) := by
  unfold onBackend twin
  dsimp only
  rw [hf]
  rfl

variable [DecidableEq K]

theorem populate_twin (s : Store K V) (layer : Layer K V) (mode : FetchMode) (d level : Nat)
    (w : World) (k : K) :
    (s.twin d).populate { layer with fetchMode := mode } level w k =
      (s.populate layer level w k).mapState (twin d) := by
  have hasked : (s.twin d).asked level = s.asked level := rfl
  unfold populate
  dsimp only
  rw [hasked]
  cases layer.provider.provide (s.asked level) k with
  | error e => rfl
  | ok v =>
    have hstored := onBackend_twin { s with calls := s.calls ++ [(level, k)] } d
      (s.backend.insert_missed d (w.share v).2 k (w.share v).1)
    let answered (out : Step (Store K V) (Note K V) Unit) : Step (Store K V) (Note K V) (Found V) :=
      ⟨.ok (some (w.share v).1), out.state, out.world, .call level k :: out.log⟩
    exact congrArg answered hstored

theorem get_of_held {s : Store K V} {w : World} {k : K} (layer : Layer K V)
    (hheld : (s.backend.get w k).answer ≠ none) : s.get w k [layer] = s.get w k [] := by
  have hfound : (s.get w k []).answer ≠ .ok none := fun hnone => hheld (Except.ok.inj hnone)
  have hdescends := get_descends layer [] w k s
  generalize s.get w k [layer] = out at hdescends ⊢
  cases hdescends with
  | found _ => rfl
  | asked _ hmissed => exact absurd hmissed hfound
  | foundAgain _ hmissed _ => exact absurd hmissed hfound
  | askedAgain _ hmissed _ => exact absurd hmissed hfound

theorem get_of_missed {s : Store K V} {w : World} {k : K} {layer : Layer K V}
    (hmode : layer.fetchMode = .concurrent) (hnone : (s.backend.get w k).answer = none) :
    s.get w k [layer] = (s.get w k []).bind fun _ s w => s.populate layer 0 w k := by
  have hmissed : (s.get w k []).answer = .ok none := congrArg Except.ok hnone
  have hdescends := get_descends layer [] w k s
  generalize s.get w k [layer] = out at hdescends ⊢
  cases hdescends with
  | found hfound => exact absurd hmissed hfound
  | asked _ _ => rfl
  | foundAgain hsingle _ _ => cases hmode.symm.trans hsingle
  | askedAgain hsingle _ _ => cases hmode.symm.trans hsingle

theorem get_of_missed_again {s : Store K V} (h : s.backend.Orderly) {w : World} {k : K}
    {layer : Layer K V} {stripes : Nat} (hmode : layer.fetchMode = .singleFlight stripes)
    (hnone : (s.backend.get w k).answer = none) :
    s.get w k [layer] = (s.get w k []).bind fun _ s w => (s.twin 1).populate layer 0 w k := by
  have hmissed : (s.get w k []).answer = .ok none := congrArg Except.ok hnone
  have hagain : (s.get w k []).state.get (s.get w k []).world k [] =
      .pure (.ok none) ((s.get w k []).state.twin 1) (s.get w k []).world := by
    rw [Cache.get_backend, Cache.get_backend, h.get_again hnone]
    rfl
  have hdescends := get_descends layer [] w k s
  generalize s.get w k [layer] = out at hdescends ⊢
  cases hdescends with
  | found hfound => exact absurd hmissed hfound
  | asked hconcurrent _ => cases hmode.symm.trans hconcurrent
  | foundAgain _ _ hfound => exact absurd (congrArg Step.answer hagain) hfound
  | askedAgain _ _ _ =>
    refine bind_congr ?_
    rw [hagain]
    rfl

/-- A layer that looks again does what a layer does that asks at once, and where the look-up was in
vain one more miss is counted. -/
theorem get_twin {s : Store K V} (h : s.backend.Orderly) {layer : Layer K V}
    (hmode : layer.fetchMode = .concurrent) (stripes d : Nat) (w : World) (k : K) :
    (s.twin d).get w k [{ layer with fetchMode := .singleFlight stripes }] =
      (s.get w k [layer]).mapState
        (twin (d + [(s.backend.get w k).answer.isSome].count false)) := by
  have hfirst : (s.twin d).backend.get w k = (s.backend.get w k).mapState (Backend.missed d) :=
    s.backend.get_missed d w k
  have hbelow : (s.twin d).get w k [] = (s.get w k []).mapState (twin d) := by
    rw [Cache.get_backend, Cache.get_backend, hfirst]
    rfl
  have hanswer : ((s.twin d).backend.get w k).answer = (s.backend.get w k).answer := by
    rw [hfirst]
    rfl
  cases hfound : (s.backend.get w k).answer with
  | some value =>
    have hheld : (s.backend.get w k).answer ≠ none := by simp [hfound]
    rw [get_of_held _ (hanswer ▸ hheld), get_of_held _ hheld, hbelow]
    rfl
  | none =>
    have horderly : (s.twin d).backend.Orderly := h.missed d
    rw [get_of_missed_again horderly rfl (hanswer.trans hfound), get_of_missed hmode hfound, hbelow]
    unfold Step.bind
    dsimp only [Step.mapState]
    rw [twin_twin, populate_twin]
    rfl

end Store

/-! ## Everything that is asked of a cache -/

namespace Cache

inductive Call (K : Type u) (V : Type v) where
  | op (op : Op K V)
  | contains (k : K)
  | isEmpty

inductive Reply (K : Type u) (V : Type v) where
  | done
  | truth (b : Bool)
  | found (answer : Found V)
  | foundAll (answer : Except CacheError (List (Option (Shared V))))
  | keys (listed : List K)
  | count (n : Nat)

/-- The world may become another one, and something is asked. -/
structure Turn (K : Type u) (V : Type v) where
  change : World → World
  call : Call K V

variable [DecidableEq K]

def serve (c : Cache K V) (w : World) : Call K V → Step (Cache K V) (Note K V) (Reply K V)
  | .op (.insert k value) => (c.insert w k value).mapAnswer fun _ => .done
  | .op (.put k v) => (c.put w k v).mapAnswer fun _ => .done
  | .op (.putAll entries) => (c.putAll w entries).mapAnswer fun _ => .done
  | .op (.remove k) => (c.remove w k).mapAnswer .truth
  | .op (.get k) => (c.get w k).mapAnswer .found
  | .op (.getAll ks) => (c.getAll w ks).mapAnswer .foundAll
  | .op (.refresh level k) =>
    match c.refresh? level w k with
    | some out => out.mapAnswer .found
    | none => .pure .done c w
  | .op .keys => (c.keys w).mapAnswer .keys
  | .op .size => (c.size w).mapAnswer .count
  | .op .close => (c.close w).mapAnswer fun _ => .done
  | .op .purgeExpired =>
    (c.onBackend fun b => (b.purgeExpired w).getD (.pure () b w)).mapAnswer fun _ => .done
  | .op (.heap op) => .pure .done (c.perform w (.heap op)) w
  | .contains k => .pure (.truth (c.contains w k)) c w
  | .isEmpty => (c.isEmpty w).mapAnswer .truth

/-- Takes a cache through what is asked; the log has the events and the calls of providers. -/
def run (c : Cache K V) (w : World) :
    List (Turn K V) → Step (Cache K V) (Note K V) (List (Reply K V))
  | [] => .pure [] c w
  | turn :: turns => (c.serve (turn.change w) turn.call).bind fun reply c w =>
    (c.run w turns).mapAnswer (reply :: ·)

/-- Whether each look-up of a list of keys finds its key below, up to the first error. -/
def finds (c : Cache K V) (w : World) : List K → List Bool
  | [] => []
  | k :: ks =>
    let out := c.get w k
    (c.store.backend.get w k).answer.isSome :: match out.answer with
    | .error _ => []
    | .ok value => out.state.finds (holding out.world (.ok value)) ks

def looks (c : Cache K V) (w : World) : Call K V → List Bool
  | .op (.get k) => c.finds w [k]
  | .op (.getAll ks) => c.finds w ks
  | _ => []

def looked (c : Cache K V) (w : World) : List (Turn K V) → List Bool
  | [] => []
  | turn :: turns =>
    let out := c.serve (turn.change w) turn.call
    c.looks (turn.change w) turn.call ++ out.state.looked out.world turns

theorem serve_state (c : Cache K V) (w : World) (op : Op K V) :
    (c.serve w (.op op)).state = c.perform w op := by
  cases op with
  | refresh level k =>
    unfold serve perform
    dsimp only
    cases c.refresh? level w k <;> rfl
  | purgeExpired =>
    unfold serve perform onBackend onStore Store.onBackend
    dsimp only [Step.mapAnswer, Step.mapState, Step.mapLog]
    cases c.store.backend.purgeExpired w <;> rfl
  | _ => rfl

variable {layer : Layer K V} {c : Cache K V}

theorem Under.serve (h : c.Under layer) (w : World) (call : Call K V) :
    (c.serve w call).state.Under layer := by
  cases call with
  | op op => exact serve_state c w op ▸ h.perform w op
  | contains k => exact h
  | isEmpty => exact h.perform w .size

/-! ## The twin -/

omit [DecidableEq K] in
/-- The cache whose layers look again, with so many more misses counted. -/
def twin (stripes d : Nat) (c : Cache K V) : Cache K V :=
  ⟨c.store.twin d, c.layers.map fun layer => { layer with fetchMode := .singleFlight stripes }⟩

variable (stripes d : Nat)

omit [DecidableEq K] in
theorem onStore_twin {α : Type w} {d' : Nat} {f f' : Store K V → Step (Store K V) (Note K V) α}
    (hf : f' (c.store.twin d) = (f c.store).mapState (Store.twin d')) :
    (c.twin stripes d).onStore f' = (c.onStore f).mapState (twin stripes d') := by
  have htwin : (c.twin stripes d).onStore f' =
      (f' (c.store.twin d)).mapState fun store => { c.twin stripes d with store } := rfl
  rw [htwin, hf]
  rfl

omit [DecidableEq K] in
theorem onBackend_twin {α : Type w} {f : Backend K V → Step (Backend K V) (Eviction K V) α}
    (hf : ∀ b, f (b.missed d) = (f b).mapState (Backend.missed d)) :
    (c.twin stripes d).onBackend f = (c.onBackend f).mapState (twin stripes d) :=
  onStore_twin stripes d (Store.onBackend_twin c.store d (hf _))

omit [DecidableEq K] in
theorem answer_twin {α : Type w} {f : Backend K V → Step (Backend K V) (Eviction K V) α}
    (hf : ∀ b, f (b.missed d) = (f b).mapState (Backend.missed d)) (reply : α → Reply K V) :
    ((c.twin stripes d).onBackend f).mapAnswer reply =
      ((c.onBackend f).mapAnswer reply).mapState (twin stripes d) :=
  congrArg (fun out => out.mapAnswer reply) (onBackend_twin stripes d hf)

theorem put_twin (w : World) (k : K) (v : Option V) :
    (c.twin stripes d).put w k v = (c.put w k v).mapState (twin stripes d) := by
  cases v with
  | some v => exact onBackend_twin stripes d fun b => b.insert_missed d _ k _
  | none =>
    have hremoved : (c.twin stripes d).remove w k = (c.remove w k).mapState (twin stripes d) :=
      onBackend_twin stripes d fun b => b.remove_missed d w k
    exact congrArg (fun out => out.mapAnswer fun _ => ()) hremoved

theorem putAll_twin (entries : List (K × Option V)) (c : Cache K V) (w : World) :
    (c.twin stripes d).putAll w entries = (c.putAll w entries).mapState (twin stripes d) := by
  induction entries generalizing c w with
  | nil => rfl
  | cons entry rest ih =>
    rw [putAll, putAll]
    exact Step.bind_mapState (put_twin stripes d w entry.1 entry.2) fun _ c w => ih c w

theorem Under.get_twin (h : c.Under layer) (hmode : layer.fetchMode = .concurrent) (w : World)
    (k : K) : (c.twin stripes d).get w k =
      (c.get w k).mapState
        (twin stripes (d + [(c.store.backend.get w k).answer.isSome].count false)) := by
  obtain ⟨store, layers⟩ := c
  obtain rfl : layers = [layer] := h.layers
  exact onStore_twin stripes d (Store.get_twin h.orderly hmode stripes d w k)

theorem finds_cons (c : Cache K V) (w : World) (k : K) (ks : List K) :
    c.finds w (k :: ks) = (c.store.backend.get w k).answer.isSome ::
      match (c.get w k).answer with
      | .error _ => []
      | .ok value => (c.get w k).state.finds (holding (c.get w k).world (.ok value)) ks := rfl

theorem looks_get (c : Cache K V) (w : World) (k : K) :
    c.looks w (.op (.get k)) = [(c.store.backend.get w k).answer.isSome] := by
  show c.finds w [k] = _
  rw [finds_cons]
  cases (c.get w k).answer <;> rfl

theorem Under.getAll_twin (hmode : layer.fetchMode = .concurrent) (ks : List K) {c : Cache K V}
    (h : c.Under layer) (d : Nat) (w : World) : (c.twin stripes d).getAll w ks =
      (c.getAll w ks).mapState (twin stripes (d + (c.finds w ks).count false)) := by
  induction ks generalizing c d w with
  | nil => rfl
  | cons k ks ih =>
    have hfirst := h.get_twin stripes d hmode w k
    rw [finds_cons]
    cases hfound : (c.get w k).answer with
    | error e =>
      have hfound' : ((c.twin stripes d).get w k).answer = .error e := by
        rw [hfirst]
        exact hfound
      rw [getAll_of_error hfound, getAll_of_error hfound', hfirst]
      rfl
    | ok value =>
      have hfound' : ((c.twin stripes d).get w k).answer = .ok value := by
        rw [hfirst]
        exact hfound
      have hrest := ih (h.get w k) (d + [(c.store.backend.get w k).answer.isSome].count false)
        (holding (c.get w k).world (.ok value))
      have hcount (bs : List Bool) :
          d + ((c.store.backend.get w k).answer.isSome :: bs).count false =
            d + [(c.store.backend.get w k).answer.isSome].count false + bs.count false := by
        rw [← List.singleton_append, List.count_append, Nat.add_assoc]
      rw [getAll_of_found hfound, getAll_of_found hfound', hfirst,
        hcount ((c.get w k).state.finds (holding (c.get w k).world (.ok value)) ks)]
      dsimp only [Step.mapState]
      rw [hrest]
      rfl

omit [DecidableEq K] in
theorem layersFrom_twin (c : Cache K V) (level : Nat) : (c.twin stripes d).layersFrom level =
    (c.layersFrom level).map fun layer => { layer with fetchMode := .singleFlight stripes } := by
  unfold layersFrom twin
  dsimp only
  rw [List.length_map, List.map_drop]

theorem refresh_twin (c : Cache K V) (level : Nat) (w : World) (k : K) :
    (c.twin stripes d).refresh? level w k =
      (c.refresh? level w k).map (·.mapState (twin stripes d)) := by
  unfold refresh?
  rw [layersFrom_twin]
  cases c.layersFrom level with
  | nil => rfl
  | cons layer below =>
    have hpopulated : (c.twin stripes d).onStore (fun s =>
          s.populate { layer with fetchMode := .singleFlight stripes } below.length w k) =
        (c.onStore fun s => s.populate layer below.length w k).mapState (twin stripes d) :=
      onStore_twin stripes d
        (c.store.populate_twin layer (.singleFlight stripes) d below.length w k)
    rw [List.map_cons, Option.map_some, ← hpopulated]
    dsimp only
    rw [List.length_map]

/-- The twin gives the same answer to a call, logs the same and comes to the same world. It stays the
twin of the cache, with one more miss counted for each look-up that finds nothing below. -/
theorem Under.serve_twin (h : c.Under layer) (hmode : layer.fetchMode = .concurrent) (w : World)
    (call : Call K V) : (c.twin stripes d).serve w call =
      (c.serve w call).mapState (twin stripes (d + (c.looks w call).count false)) := by
  cases call with
  | op op =>
    cases op with
    | insert k value => exact answer_twin stripes d (fun b => b.insert_missed d w k value) fun _ => .done
    | put k v =>
      exact congrArg (fun out => out.mapAnswer fun _ => Reply.done) (put_twin stripes d w k v)
    | putAll entries =>
      exact congrArg (fun out => out.mapAnswer fun _ => Reply.done)
        (putAll_twin stripes d entries c w)
    | remove k => exact answer_twin stripes d (fun b => b.remove_missed d w k) .truth
    | get k =>
      rw [looks_get]
      exact congrArg (fun out => out.mapAnswer Reply.found) (h.get_twin stripes d hmode w k)
    | getAll ks =>
      exact congrArg (fun out => out.mapAnswer Reply.foundAll) (h.getAll_twin stripes hmode ks d w)
    | refresh level k =>
      unfold Cache.serve
      dsimp only
      rw [refresh_twin]
      cases c.refresh? level w k <;> rfl
    | keys => exact answer_twin stripes d (fun b => b.keys_missed d w) .keys
    | size => exact answer_twin stripes d (fun b => b.size_missed d w) .count
    | close => exact answer_twin stripes d (fun b => b.close_missed d w) fun _ => .done
    | purgeExpired =>
      refine answer_twin stripes d (fun b => ?_) fun _ => .done
      rw [b.purgeExpired_missed]
      cases b.purgeExpired w <;> rfl
    | heap op =>
      obtain ⟨⟨backend, calls⟩, layers⟩ := c
      cases backend <;> rfl
  | contains k =>
    have hsame : (c.twin stripes d).contains w k = c.contains w k :=
      c.store.backend.contains_missed d w k
    show Step.pure _ _ _ = _
    rw [hsame]
    rfl
  | isEmpty =>
    have hsize : (c.twin stripes d).size w = (c.size w).mapState (twin stripes d) :=
      onBackend_twin stripes d fun b => b.size_missed d w
    exact congrArg (fun out => (out.mapAnswer (· == 0)).mapAnswer Reply.truth) hsize

theorem Under.run_twin (hmode : layer.fetchMode = .concurrent) (turns : List (Turn K V))
    {c : Cache K V} (h : c.Under layer) (d : Nat) (w : World) : (c.twin stripes d).run w turns =
      (c.run w turns).mapState (twin stripes (d + (c.looked w turns).count false)) := by
  induction turns generalizing c d w with
  | nil => rfl
  | cons turn turns ih =>
    have hfirst := h.serve_twin stripes d hmode (turn.change w) turn.call
    have hrest := ih (h.serve (turn.change w) turn.call)
      (d + (c.looks (turn.change w) turn.call).count false)
      (c.serve (turn.change w) turn.call).world
    rw [run, run, hfirst, looked, List.count_append, ← Nat.add_assoc]
    unfold Step.bind
    dsimp only [Step.mapState]
    rw [hrest]
    rfl

end Cache

/-! ## Every look-up is counted -/

/-- A cache that counts has counted so many look-ups. -/
def Backend.Counts [DecidableEq K] (b : Backend K V) (n : Nat) : Prop :=
  b.cacheType ≠ .noOp → b.Stores ∧ b.books.metrics.hits + b.books.metrics.misses = n

namespace Backend.Counts

variable [DecidableEq K] {b : Backend K V} {n : Nat}

theorem perform (h : b.Counts n) (w : World) (op : Op K V) :
    (b.perform w op).state.Counts (n + op.lookups) := by
  intro hcounts
  obtain ⟨hstores, hsum⟩ := h (by rwa [cacheType_perform] at hcounts)
  obtain ⟨hafter, htell⟩ := hstores.tell_perform w op
  exact ⟨hafter, by rw [htell.lookedUp, hsum]⟩

theorem populate {s : Store K V} (h : s.backend.Counts n) (layer : Layer K V) (level : Nat)
    (w : World) (k : K) : (s.populate layer level w k).state.backend.Counts n := by
  unfold Store.populate
  dsimp only
  split
  · exact h.perform _ (.request (.insert k _))
  · exact h

theorem get {s : Store K V} (h : s.backend.Counts n) {layer : Layer K V}
    (hmode : layer.fetchMode = .concurrent) (w : World) (k : K) :
    (s.get w k [layer]).state.backend.Counts (n + 1) := by
  have hlooked : (s.get w k []).state.backend.Counts (n + 1) := h.perform w (.request (.get k))
  by_cases hnone : (s.backend.get w k).answer = none
  · rw [Store.get_of_missed hmode hnone]
    exact hlooked.populate layer 0 _ k
  · rwa [Store.get_of_held layer hnone]

end Backend.Counts

namespace Cache

variable [DecidableEq K] {layer : Layer K V} {c : Cache K V} {n : Nat}

theorem counts_put (h : c.store.backend.Counts n) (w : World) (k : K) (v : Option V) :
    (c.put w k v).state.store.backend.Counts n := by
  cases v with
  | some v => exact h.perform _ (.request (.insert k _))
  | none => exact h.perform w (.request (.remove k))

theorem counts_putAll (entries : List (K × Option V)) {c : Cache K V}
    (h : c.store.backend.Counts n) (w : World) :
    (c.putAll w entries).state.store.backend.Counts n := by
  induction entries generalizing c w with
  | nil => exact h
  | cons entry rest ih => exact ih (counts_put h w entry.1 entry.2) _

theorem Under.counts_get (hc : c.Under layer) (hmode : layer.fetchMode = .concurrent)
    (h : c.store.backend.Counts n) (w : World) (k : K) :
    (c.get w k).state.store.backend.Counts (n + 1) := by
  obtain ⟨store, layers⟩ := c
  obtain rfl : layers = [layer] := hc.layers
  exact h.get hmode w k

theorem Under.counts_getAll (hmode : layer.fetchMode = .concurrent) (ks : List K) {c : Cache K V}
    {n : Nat} (hc : c.Under layer) (h : c.store.backend.Counts n) (w : World) :
    (c.getAll w ks).state.store.backend.Counts (n + (c.finds w ks).length) := by
  induction ks generalizing c n w with
  | nil => exact h
  | cons k ks ih =>
    have hfirst := hc.counts_get hmode h w k
    rw [finds_cons]
    cases hfound : (c.get w k).answer with
    | error e =>
      rw [getAll_of_error hfound]
      exact hfirst
    | ok value =>
      rw [getAll_of_found hfound, List.length_cons, Nat.add_comm _ 1, ← Nat.add_assoc]
      exact ih (hc.get w k) hfirst _

theorem Under.counts_serve (hc : c.Under layer) (hmode : layer.fetchMode = .concurrent)
    (h : c.store.backend.Counts n) (w : World) (call : Call K V) :
    (c.serve w call).state.store.backend.Counts (n + (c.looks w call).length) := by
  cases call with
  | op op =>
    cases op with
    | insert k value => exact h.perform w (.request (.insert k value))
    | put k v => exact counts_put h w k v
    | putAll entries => exact counts_putAll entries h w
    | remove k => exact h.perform w (.request (.remove k))
    | get k =>
      rw [looks_get]
      exact hc.counts_get hmode h w k
    | getAll ks => exact hc.counts_getAll hmode ks h w
    | refresh level k =>
      unfold Cache.serve refresh?
      dsimp only
      cases c.layersFrom level with
      | nil => exact h
      | cons layer below => exact h.populate layer _ w k
    | keys => exact h.perform w (.request .keys)
    | size => exact h.perform w (.request .size)
    | close => exact h.perform w .close
    | purgeExpired => exact h.perform w .purgeExpired
    | heap op =>
      obtain ⟨⟨backend, calls⟩, layers⟩ := c
      have hworked := h.perform w (.heap op)
      cases backend <;> exact hworked
  | contains k => exact h
  | isEmpty => exact h.perform w (.request .size)

theorem Under.counts_run (hmode : layer.fetchMode = .concurrent) (turns : List (Turn K V))
    {c : Cache K V} {n : Nat} (hc : c.Under layer) (h : c.store.backend.Counts n) (w : World) :
    (c.run w turns).state.store.backend.Counts (n + (c.looked w turns).length) := by
  induction turns generalizing c n w with
  | nil => exact h
  | cons turn turns ih =>
    rw [looked, List.length_append, ← Nat.add_assoc]
    exact ih (hc.serve (turn.change w) turn.call)
      (hc.counts_serve hmode h (turn.change w) turn.call) _

/-! ## Both modes -/

/-- One caller asks the same of a cache that looks once before it asks its provider, and of one that
looks again, with whatever number of locks. The answers, the events and calls of the provider in
order, the world and what is stored are the same. The counters are the same but for the misses: at
once, every look-up is counted once; looking again, one that finds nothing below is counted twice. -/
theorem fetch_modes_agree {b : Builder} {st : Storage K V} {w w' : World} {kind : CacheKind}
    {backend : Backend K V} (hbuilt : b.buildKind st w kind = (.ok backend, w'))
    (provider : Provider K V) (policy : FailurePolicy) (stripes : Nat) (turns : List (Turn K V)) :
    let once := (plain backend).populating (.make provider .concurrent policy)
    let again := (plain backend).populating (.make provider (.singleFlight stripes) policy)
    let looked := once.looked w' turns
    (again.run w' turns).answer = (once.run w' turns).answer ∧
    (again.run w' turns).log = (once.run w' turns).log ∧
    (again.run w' turns).world = (once.run w' turns).world ∧
    (again.run w' turns).state.store.calls = (once.run w' turns).state.store.calls ∧
    (again.run w' turns).state.store.backend.uncounted =
      (once.run w' turns).state.store.backend.uncounted ∧
    ∀ m, (once.run w' turns).state.metrics = some m → m.hits + m.misses = looked.length ∧
      (again.run w' turns).state.metrics = some { m with misses := m.misses + looked.count false } := by
  intro once again looked
  have hunder : once.Under (.make provider .concurrent policy) :=
    ⟨rfl, Backend.orderly_buildKind hbuilt⟩
  -- looking again is looking once with more misses on the books, of which there are none yet
  have htwin : again = once.twin (nextPowerOfTwo stripes) 0 := by
    show _ = Cache.mk ⟨backend.missed 0, []⟩ _
    rw [Backend.missed_zero]
    rfl
  have hrun := hunder.run_twin (nextPowerOfTwo stripes) rfl turns 0 w'
  rw [Nat.zero_add, ← htwin] at hrun
  have hcounts : once.store.backend.Counts 0 := fun hne => by
    obtain ⟨hstores, hbooks, -⟩ := Backend.stores_of_built hbuilt hne
    refine ⟨hstores, ?_⟩
    show backend.books.metrics.hits + backend.books.metrics.misses = 0
    rw [hbooks]
    rfl
  have hcounted := hunder.counts_run rfl turns hcounts w'
  rw [Nat.zero_add] at hcounted
  rw [hrun]
  refine ⟨rfl, rfl, rfl, rfl, Backend.uncounted_missed _ _, fun m hm => ⟨?_, ?_⟩⟩
  · obtain ⟨hstores, hsum⟩ := hcounted (by
      intro hnone
      unfold metrics at hm
      cases hbackend : (once.run w' turns).state.store.backend with
      | absent name =>
        rw [hbackend] at hm
        cases hm
      | _ =>
        rw [hbackend] at hnone
        cases hnone)
    have hbooks := hstores.metrics.symm.trans hm
    rw [← Option.some.inj hbooks]
    exact hsum
  · show ((once.run w' turns).state.store.backend.missed _).metrics = _
    rw [Backend.metrics_missed]
    exact congrArg (Option.map _) hm

/-- A cache in memory whose provider is down for the key 0. -/
def pairMemory (mode : FetchMode) : Cache Nat UInt8 :=
  (plain (.volatile (.make "pair" 4 UInt64.ofNat none none 0))).populating
    (.make pairLayer.provider mode .tolerateUnavailable)

/-- Of four look-ups the second finds what the first one loaded. -/
theorem fetch_modes_agree_pair :
    let turns : List (Turn Nat UInt8) :=
      [.op (.get 1), .op (.get 1), .op (.getAll [0, 2])].map (⟨id, ·⟩)
    let once := (pairMemory .concurrent).run bareWorld turns
    let again := (pairMemory (.singleFlight 3)).run bareWorld turns
    again.log = once.log ∧ (pairMemory .concurrent).looked bareWorld turns = [false, true, false, false] ∧
      ∀ m, once.state.metrics = some m → m.hits + m.misses = 4 ∧
        again.state.metrics = some { m with misses := m.misses + 3 } := by
  have hbuilt : (pairBuilder none none).buildKind byteStorage bareWorld .volatile =
      (.ok (.volatile (.make "pair" 4 UInt64.ofNat none none 0)), bareWorld) := rfl
  intro turns once again
  have hlooked : (pairMemory .concurrent).looked bareWorld turns = [false, true, false, false] := by
    decide
  obtain ⟨-, hlog, -, -, -, hmetrics⟩ :=
    fetch_modes_agree hbuilt pairLayer.provider .tolerateUnavailable 3 turns
  refine ⟨hlog, hlooked, fun m hm => ?_⟩
  obtain ⟨hsum, hagain⟩ := hmetrics m hm
  change _ = ((pairMemory .concurrent).looked bareWorld turns).length at hsum
  change _ = some { m with misses := m.misses +
    ((pairMemory .concurrent).looked bareWorld turns).count false } at hagain
  rw [hlooked] at hsum hagain
  exact ⟨hsum, hagain⟩

/-- One look-up that finds nothing is counted once where the provider is asked at once, and twice where
the cache is looked up again. -/
theorem looking_again_counts :
    let turns : List (Turn Nat UInt8) := [⟨id, .op (.get 1)⟩]
    let once := (pairMemory .concurrent).run bareWorld turns
    let again := (pairMemory (.singleFlight 1)).run bareWorld turns
    (once.state.metrics.map fun m => m.hits + m.misses) = some 1 ∧
      (again.state.metrics.map fun m => m.hits + m.misses) = some 2 ∧
      again.state.metrics ≠ once.state.metrics :=
  ⟨by decide, by decide, by decide⟩

end Cache

end CacheLayer
