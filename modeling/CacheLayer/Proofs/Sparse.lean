import CacheLayer.Error
import CacheLayer.Proofs.Table
import Mathlib.Data.List.Sort

/-!
# A sparse map with iterations

The plainest list with gaps: a table from indices to elements, and for each iteration that was begun
the indices that are left to it. An iteration is begun with the indices of the time and passes over
those that hold nothing when it comes to them. It says what a list over a cache ought to look like from
outside.

* `Sparse.serve`, `Sparse.run` : what each request is answered and leaves behind.
* `Sparse.indices_ascending`, `Sparse.indices_eq_of_perm` : the indices, whatever order they were listed
  in.
* `Sparse.yielded_ascending` : an iteration gives its indices in ascending order.
-/

namespace CacheLayer

universe u v

/-- What is asked of a list; iterations are numbered as they are begun. -/
inductive ListRequest (V : Type u) where
  | set (i : Nat) (v : V)
  | get (i : Nat)
  | remove (i : Nat)
  | contains (i : Nat)
  | size
  | isEmpty
  | indices
  | clear
  | iterate
  | next (number : Nat)

/-- What a list answers. -/
inductive ListReply (V : Type u) where
  | done
  | element (found : Except CacheError (Option V))
  | truth (b : Bool)
  | count (n : Nat)
  | indices (listed : List Nat)
  | item (given : Option (Except CacheError (Nat × V)))

def ListReply.map {V : Type u} {V' : Type v} (f : V → V') : ListReply V → ListReply V'
  | done => .done
  | element found => .element (found.map (Option.map f))
  | truth b => .truth b
  | count n => .count n
  | indices listed => .indices listed
  | item given => .item (given.map (Except.map (Prod.map id f)))

/-- Elements at some indices, and for each iteration that was begun the indices that are left to it. -/
structure Sparse (V : Type u) where
  elements : Table Nat V
  iterations : List (List Nat)

namespace Sparse

variable {V : Type u}

def indices (t : Table Nat V) : List Nat := t.keys.mergeSort fun i j => decide (i ≤ j)

/-- The first of the listed indices that holds an element now, with that element, and the indices after
it. -/
def visit (t : Table Nat V) (left : List Nat) : Option (Nat × V) × List Nat :=
  let ahead := left.dropWhile fun i => !t.contains i
  (ahead.head?.bind fun i => (t.get? i).map fun v => (i, v), ahead.tail)

/-- What a request is answered and leaves behind, where elements that have a `refusal` are refused. -/
def serve (refusal : V → Option CacheError) (s : Sparse V) : ListRequest V → ListReply V × Sparse V
  | .set i v =>
    match refusal v with
    | some e => (.element (.error e), s)
    | none => (.element (.ok (s.elements.get? i)), { s with elements := s.elements.insert i v })
  | .get i => (.element (.ok (s.elements.get? i)), s)
  | .remove i => (.element (.ok (s.elements.get? i)), { s with elements := s.elements.erase i })
  | .contains i => (.truth (s.elements.contains i), s)
  | .size => (.count s.elements.size, s)
  | .isEmpty => (.truth (s.elements.size == 0), s)
  | .indices => (.indices (indices s.elements), s)
  | .clear => (.done, { s with elements := .empty })
  | .iterate => (.done, { s with iterations := s.iterations ++ [indices s.elements] })
  | .next number =>
    let visited := visit s.elements (s.iterations.getD number [])
    (.item (visited.1.map .ok), { s with iterations := s.iterations.set number visited.2 })

def run (refusal : V → Option CacheError) (s : Sparse V) : List (ListRequest V) → List (ListReply V)
  | [] => []
  | r :: rs => (s.serve refusal r).1 :: (s.serve refusal r).2.run refusal rs

def after (refusal : V → Option CacheError) (s : Sparse V) (rs : List (ListRequest V)) : Sparse V :=
  rs.foldl (fun s r => (s.serve refusal r).2) s

theorem serve_set_refused {refusal : V → Option CacheError} {v : V} {e : CacheError}
    (h : refusal v = some e) (s : Sparse V) (i : Nat) :
    s.serve refusal (.set i v) = (.element (.error e), s) := by
  simp only [serve, h]

theorem serve_set_stored {refusal : V → Option CacheError} {v : V} (h : refusal v = none)
    (s : Sparse V) (i : Nat) :
    s.serve refusal (.set i v) =
      (.element (.ok (s.elements.get? i)), { s with elements := s.elements.insert i v }) := by
  simp only [serve, h]

/-! ## Indices -/

theorem indices_perm (t : Table Nat V) : (indices t).Perm t.keys := List.mergeSort_perm _ _

theorem indices_ascending (t : Table Nat V) : (indices t).Pairwise (· < ·) := by
  have hsorted : (indices t).Pairwise (· ≤ ·) := List.pairwise_mergeSort' (· ≤ ·) t.keys
  have hnodup : (indices t).Nodup := (indices_perm t).nodup_iff.2 t.nodup_keys
  exact (hsorted.and hnodup).imp fun h => Nat.lt_of_le_of_ne h.1 h.2

theorem indices_eq_of_perm {t : Table Nat V} {is : List Nat} (h : is.Perm t.keys) :
    is.mergeSort (fun i j => decide (i ≤ j)) = indices t := by
  have hperm : (is.mergeSort fun i j => decide (i ≤ j)).Perm (indices t) :=
    (List.mergeSort_perm _ _).trans (h.trans (indices_perm t).symm)
  have hsorted : (is.mergeSort fun i j => decide (i ≤ j)).Pairwise (· ≤ ·) :=
    List.pairwise_mergeSort' (· ≤ ·) is
  exact hperm.eq_of_pairwise' hsorted ((indices_ascending t).imp Nat.le_of_lt)

theorem listed_ascending (refusal : V → Option CacheError) (rs : List (ListRequest V)) (s : Sparse V)
    {is : List Nat} (h : .indices is ∈ s.run refusal rs) : is.Pairwise (· < ·) := by
  induction rs generalizing s with
  | nil => cases h
  | cons r rs ih =>
    rcases List.mem_cons.1 h with hfirst | hlater
    · cases r with
      | indices =>
        rw [ListReply.indices.inj hfirst]
        exact indices_ascending s.elements
      | set i v =>
        unfold serve at hfirst
        dsimp only at hfirst
        split at hfirst <;> cases hfirst
      | _ => cases hfirst
    · exact ih _ hlater

/-! ## Iterations -/

theorem visit_absent {t : Table Nat V} {i : Nat} (h : t.get? i = none) (is : List Nat) :
    visit t (i :: is) = visit t is := by
  unfold visit
  rw [List.dropWhile_cons_of_pos (by simp [Table.contains_eq, h])]

theorem visit_present {t : Table Nat V} {i : Nat} {v : V} (h : t.get? i = some v) (is : List Nat) :
    visit t (i :: is) = (some (i, v), is) := by
  unfold visit
  rw [List.dropWhile_cons_of_neg (by simp [Table.contains_eq, h])]
  simp [h]

theorem visit_sublist (t : Table Nat V) (left : List Nat) :
    (((visit t left).1.map Prod.fst).toList ++ (visit t left).2).Sublist left := by
  induction left with
  | nil => exact .slnil
  | cons i is ih =>
    cases hget : t.get? i with
    | none =>
      rw [visit_absent hget]
      exact ih.cons i
    | some v =>
      rw [visit_present hget]
      exact .refl _

def given? (number : Nat) : ListRequest V × ListReply V → Option Nat
  | (.next n, .item (some (.ok (i, _)))) => if n = number then some i else none
  | _ => none

/-- The indices that an iteration gives, in their order. -/
def yielded (number : Nat) (answered : List (ListRequest V × ListReply V)) : List Nat :=
  answered.filterMap (given? number)

variable (refusal : V → Option CacheError) {s : Sparse V} {number : Nat}

theorem given?_of_ne {r : ListRequest V} (h : r ≠ .next number) :
    given? number (r, (s.serve refusal r).1) = none := by
  cases r with
  | next n =>
    have hn : n ≠ number := fun hn => h (congrArg ListRequest.next hn)
    unfold given?
    split
    · rename_i heq
      rw [← ListRequest.next.inj (Prod.mk.inj heq).1, if_neg hn]
    · rfl
  | _ => rfl

theorem given?_next (s : Sparse V) (number : Nat) :
    given? number (.next number, (s.serve refusal (.next number)).1) =
      (visit s.elements (s.iterations.getD number [])).1.map Prod.fst := by
  show given? number (.next number, .item ((visit s.elements _).1.map .ok)) = _
  cases (visit s.elements (s.iterations.getD number [])).1 with
  | none => rfl
  | some e => exact if_pos rfl

theorem iterations_of_ne {r : ListRequest V} (h : r ≠ .next number)
    (hnew : r = .iterate → number ≠ s.iterations.length) :
    (s.serve refusal r).2.iterations[number]? = s.iterations[number]? := by
  cases r with
  | set i v =>
    unfold serve
    dsimp only
    split <;> rfl
  | iterate =>
    have hnumber := hnew rfl
    show (s.iterations ++ [indices s.elements])[number]? = _
    rw [List.getElem?_append]
    split
    · rfl
    · rename_i hbeyond
      rw [List.getElem?_eq_none (by simp; omega), List.getElem?_eq_none (by omega)]
  | next n =>
    have hn : n ≠ number := fun hn => h (congrArg ListRequest.next hn)
    exact List.getElem?_set_ne hn
  | _ => rfl

/-- A request takes at most the first of the indices that are left to an iteration. -/
theorem left_serve {left : List Nat} (h : s.iterations[number]? = some left) (r : ListRequest V) :
    ∃ left', (s.serve refusal r).2.iterations[number]? = some left' ∧
      ((given? number (r, (s.serve refusal r).1)).toList ++ left').Sublist left := by
  by_cases hr : r = .next number
  · subst hr
    obtain ⟨hlt, hleft⟩ := List.getElem?_eq_some_iff.1 h
    have hget : s.iterations.getD number [] = left := by
      rw [List.getD_eq_getElem?_getD, h]
      rfl
    refine ⟨(visit s.elements left).2, ?_, ?_⟩
    · show (s.iterations.set number (visit s.elements (s.iterations.getD number [])).2)[number]? = _
      rw [hget, List.getElem?_set_self hlt]
    · rw [given?_next, hget]
      exact visit_sublist s.elements left
  · refine ⟨left, ?_, ?_⟩
    · rw [iterations_of_ne refusal hr, h]
      rintro - rfl
      rw [List.getElem?_eq_none (Nat.le_refl _)] at h
      cases h
    · rw [given?_of_ne refusal hr]
      exact .refl left

theorem begun_ascending (h : s.iterations[number]? = none) {r : ListRequest V} {left : List Nat}
    (hleft : (s.serve refusal r).2.iterations[number]? = some left) : left.Pairwise (· < ·) := by
  have hbeyond : s.iterations.length ≤ number := List.getElem?_eq_none_iff.1 h
  by_cases hr : r = .next number
  · subst hr
    have hleft : (s.iterations.set number _)[number]? = some left := hleft
    rw [List.getElem?_eq_none (by rwa [List.length_set])] at hleft
    cases hleft
  · by_cases hnew : r = .iterate ∧ number = s.iterations.length
    · obtain ⟨rfl, rfl⟩ := hnew
      have hleft : (s.iterations ++ [indices s.elements])[s.iterations.length]? = some left := hleft
      rw [List.getElem?_concat_length] at hleft
      rw [← Option.some.inj hleft]
      exact indices_ascending s.elements
    · rw [iterations_of_ne refusal hr fun hiterate hlast => hnew ⟨hiterate, hlast⟩, h] at hleft
      cases hleft

theorem yielded_cons (number : Nat) (s : Sparse V) (r : ListRequest V) (rs : List (ListRequest V)) :
    yielded number ((r :: rs).zip (s.run refusal (r :: rs))) =
      (given? number (r, (s.serve refusal r).1)).toList ++
        yielded number (rs.zip ((s.serve refusal r).2.run refusal rs)) := by
  rw [run, List.zip_cons_cons, yielded, List.filterMap_cons]
  cases given? number (r, (s.serve refusal r).1) with
  | none => rfl
  | some i => rfl

theorem yielded_sublist (rs : List (ListRequest V)) {left : List Nat}
    (h : s.iterations[number]? = some left) :
    (yielded number (rs.zip (s.run refusal rs))).Sublist left := by
  induction rs generalizing s left with
  | nil => exact List.nil_sublist left
  | cons r rs ih =>
    obtain ⟨left', hleft, hsublist⟩ := left_serve refusal h r
    rw [yielded_cons]
    exact ((List.Sublist.refl _).append (ih hleft)).trans hsublist

theorem yielded_ascending (rs : List (ListRequest V)) (h : s.iterations[number]? = none) :
    (yielded number (rs.zip (s.run refusal rs))).Pairwise (· < ·) := by
  induction rs generalizing s with
  | nil => exact .nil
  | cons r rs ih =>
    have hgiven : given? number (r, (s.serve refusal r).1) = none := by
      by_cases hr : r = .next number
      · rw [hr, given?_next, List.getD_eq_getElem?_getD, h]
        rfl
      · exact given?_of_ne refusal hr
    rw [yielded_cons, hgiven, Option.toList_none, List.nil_append]
    cases hleft : (s.serve refusal r).2.iterations[number]? with
    | none => exact ih hleft
    | some left =>
      exact (begun_ascending refusal h hleft).sublist (yielded_sublist refusal rs hleft)

end Sparse

end CacheLayer
