import CacheLayer.Proofs.Recency
import Mathlib.Algebra.Order.BigOperators.Group.List
import Mathlib.Algebra.Order.Group.Nat

/-!
# Trimming keeps the longest front that fits

Trimming pops one key after the other off the back of a recency list. What it comes to can be said
without the loop: the list is cut in two, and its front is the longest one that is within the bound.
Cuts made one after the other, with more put in front before each of them, are one cut of the whole.

* `Bound.Allows` : a list of weights is within a bound; every part of it then is, too.
* `Bound.Cuts` : a list is cut after its longest front that is within the bound.
* `Bound.Cuts.after` : two cuts make one.
* `Bound.Cuts.head_gone_iff` : the first key goes exactly if it does not fit alone.
* `Recency.Sound.trim_cuts` : trimming is a cut, and the popped keys are what comes behind it.
-/

namespace CacheLayer

variable {K : Type u}

def Bound.Allows (b : Bound) (l : List (K × Nat)) : Prop :=
  match b with
  | .entries max => l.length ≤ max
  | .bytes max => (l.map Prod.snd).sum ≤ max

/-- The list is cut into `kept` and `gone`, and `kept` is its longest front within the bound. -/
structure Bound.Cuts (b : Bound) (l kept gone : List (K × Nat)) : Prop where
  whole : kept ++ gone = l
  allowed : b.Allows kept
  longest : ∀ front, front <+: l → b.Allows front → front.length ≤ kept.length

namespace Bound

variable {b : Bound} {l kept gone : List (K × Nat)}

theorem Allows.sublist {l' : List (K × Nat)} (h : b.Allows l) (hsub : l'.Sublist l) :
    b.Allows l' := by
  cases b with
  | entries max => exact Nat.le_trans hsub.length_le h
  | bytes max => exact Nat.le_trans ((hsub.map Prod.snd).sum_le_sum fun _ _ => Nat.zero_le _) h

theorem allows_nil (b : Bound) : b.Allows ([] : List (K × Nat)) := by
  cases b with
  | entries max => exact Nat.zero_le max
  | bytes max => exact Nat.zero_le max

theorem Allows.cuts (h : b.Allows l) : b.Cuts l l [] where
  whole := l.append_nil
  allowed := h
  longest _ hfront _ := hfront.length_le

theorem Cuts.append {e : K × Nat} (h : b.Cuts l kept gone) (hfull : ¬ b.Allows (l ++ [e])) :
    b.Cuts (l ++ [e]) kept (gone ++ [e]) where
  whole := by rw [← List.append_assoc, h.whole]
  allowed := h.allowed
  longest front hfront hallowed := by
    rcases List.prefix_concat_iff.1 hfront with rfl | hfront
    · exact absurd hallowed hfull
    · exact h.longest front hfront hallowed

/-- To cut a list, to put more in front and to cut again is to cut all at once. -/
theorem Cuts.after {front kept' gone' : List (K × Nat)} (h : b.Cuts l kept gone)
    (h' : b.Cuts (front ++ kept) kept' gone') :
    b.Cuts (front ++ l) kept' (gone' ++ gone) where
  whole := by rw [← List.append_assoc, h'.whole, List.append_assoc, h.whole]
  allowed := h'.allowed
  longest longer hlonger hallowed := by
    rcases List.prefix_or_prefix_of_prefix hlonger (List.prefix_append front l) with
      hshort | ⟨back, rfl⟩
    · exact h'.longest longer (hshort.trans (List.prefix_append front kept)) hallowed
    · -- the part behind `front` fits by itself, so it reaches no farther than `kept`
      have hback : back <+: l := (List.prefix_append_right_inj front).1 hlonger
      have hshort := h.longest back hback (hallowed.sublist (List.sublist_append_right front back))
      have hback : back <+: kept :=
        List.prefix_of_prefix_length_le hback ⟨gone, h.whole⟩ hshort
      exact h'.longest _ ((List.prefix_append_right_inj front).2 hback) hallowed

theorem Cuts.map_fst (h : b.Cuts l kept gone) :
    kept.map Prod.fst ++ gone.map Prod.fst = l.map Prod.fst := by
  rw [← List.map_append, h.whole]

theorem Cuts.nodup_gone (h : b.Cuts l kept gone) (hnodup : (l.map Prod.fst).Nodup) :
    (gone.map Prod.fst).Nodup := by
  rw [← h.map_fst] at hnodup
  exact (List.nodup_append.1 hnodup).2.1

theorem Cuts.head_kept {e : K × Nat} (h : b.Cuts (e :: l) kept gone) (hfits : b.Allows [e]) :
    ∃ rest, kept = e :: rest := by
  have hone := h.longest [e] ⟨l, rfl⟩ hfits
  cases kept with
  | nil => cases hone
  | cons first rest => exact ⟨rest, by rw [(List.cons.inj h.whole).1]⟩

theorem Cuts.kept_eq_nil {e : K × Nat} (h : b.Cuts (e :: l) kept gone) (hfull : ¬ b.Allows [e]) :
    kept = [] := by
  cases kept with
  | nil => rfl
  | cons first rest =>
    have hfirst : first = e := (List.cons.inj h.whole).1
    refine absurd (h.allowed.sublist ?_) hfull
    rw [hfirst]
    exact (List.nil_sublist rest).cons_cons e

theorem Cuts.head_gone_iff {e : K × Nat} (h : b.Cuts (e :: l) kept gone)
    (hnodup : ((e :: l).map Prod.fst).Nodup) : e.1 ∈ gone.map Prod.fst ↔ ¬ b.Allows [e] := by
  refine ⟨fun hgone hfits => ?_, fun hfull => ?_⟩
  · obtain ⟨rest, hkept⟩ := h.head_kept hfits
    rw [← h.whole, hkept, List.map_append] at hnodup
    exact (List.nodup_append.1 hnodup).2.2 e.1 (by simp) e.1 hgone rfl
  · have hwhole := h.whole
    rw [h.kept_eq_nil hfull, List.nil_append] at hwhole
    rw [hwhole]
    exact List.mem_map_of_mem List.mem_cons_self

end Bound

namespace Recency

theorem Sound.exceededBy_eq_false_iff {r : Recency K} (h : r.Sound) (b : Bound) :
    b.exceededBy r = false ↔ b.Allows r.items := by
  cases b with
  | entries max => rw [Bound.exceededBy, decide_eq_false_iff_not, Nat.not_lt]; rfl
  | bytes max => rw [Bound.exceededBy, decide_eq_false_iff_not, Nat.not_lt, h.total_eq]; rfl

theorem items_of_popBack {r rest : Recency K} {e : K × Nat} (h : r.popBack = some (e, rest)) :
    r.items = rest.items ++ [e] := by
  obtain ⟨e', hlast, heq⟩ := Option.map_eq_some_iff.1 h
  obtain ⟨rfl, rfl⟩ := Prod.mk.inj heq
  obtain ⟨front, hitems⟩ := List.getLast?_eq_some_iff.1 hlast
  simp [hitems]

/-- Trimming cuts the list; the popped keys are those behind the cut, the last one first. -/
theorem Sound.trim_cuts [DecidableEq K] {r : Recency K} (h : r.Sound) (b : Bound) {fuel : Nat}
    (hfuel : r.size ≤ fuel) :
    ∃ gone, b.Cuts r.items (Recency.trim b.exceededBy fuel r).1.items gone ∧
      (Recency.trim b.exceededBy fuel r).2 = (gone.map Prod.fst).reverse := by
  -- on the fuel: what is popped first is the last of the list, behind all that is popped later
  induction fuel generalizing r with
  | zero =>
    have hnil : r.items = [] := List.eq_nil_of_length_eq_zero (Nat.le_zero.1 hfuel)
    have hcuts := (b.allows_nil (K := K)).cuts
    rw [← hnil] at hcuts
    exact ⟨r.items, hcuts, by rw [hnil]; rfl⟩
  | succ fuel ih =>
    rw [Recency.trim]
    cases hfull : b.exceededBy r with
    | false => exact ⟨[], ((h.exceededBy_eq_false_iff b).1 hfull).cuts, rfl⟩
    | true =>
      cases hpop : r.popBack with
      | none =>
        have hfits := not_exceededBy_of_keys_eq_nil h b ((popBack_eq_none_iff r).1 hpop)
        rw [hfull] at hfits
        cases hfits
      | some popped =>
        obtain ⟨e, rest⟩ := popped
        obtain ⟨hrest, -, -⟩ := h.popBack_eq hpop
        have hitems := items_of_popBack hpop
        have hsize : rest.size ≤ fuel := by
          have hlength := congrArg List.length hitems
          rw [List.length_append, List.length_singleton] at hlength
          unfold size at hfuel ⊢
          omega
        have hsound : rest.Sound := by
          rw [hrest]
          exact h.remove e.1
        obtain ⟨gone, hcuts, hgone⟩ := ih hsound hsize
        have hover : ¬ b.Allows (rest.items ++ [e]) := by
          rw [← hitems, ← h.exceededBy_eq_false_iff, hfull]
          exact Bool.true_eq_false.mp
        refine ⟨gone ++ [e], ?_, ?_⟩
        · rw [hitems]
          exact hcuts.append hover
        · rw [List.map_append, List.reverse_append]
          show e.1 :: _ = _
          rw [hgone]
          rfl

end Recency

end CacheLayer
