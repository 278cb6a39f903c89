import CacheLayer.Config.Basic
import CacheLayer.Eviction
import Mathlib.Data.List.Pairwise

/-!
# How keys move through two tiers

The keys of both tiers, each tier listed from the most recent key on, and what may become of them in
the course of an operation. `TierKeys.Course` has one rule for each instant at which a key moves down:
it is spilled from memory to the disk, is pushed off the disk, is dropped where it cannot go to the
disk, or leaves for a reason of its own. A key that has to make room is the one that was used least
recently, of those in memory or of all.

* `TierKeys.ByUse` : the keys are listed in the order of their last use.
* `TierKeys.ByUse.bring` : a key that is used comes to the front, and the order stays.
* `TierKeys.Course.byUse` : a course keeps that order.
* `TierKeys.Course.pushOffAll` : cutting keys off the end of the disk list is a course.
-/

namespace CacheLayer

universe u v

/-- The keys of the memory tier and of the disk tier, each from the most recent on. -/
@[ext]
structure TierKeys (K : Type u) where
  memory : List K
  disk : List K

namespace TierKeys

variable {K : Type u} {V : Type v}

def all (l : TierKeys K) : List K := l.memory ++ l.disk

/-- Every key was used, and each later than those listed after it. -/
structure ByUse (lastUse : K → Nat) (l : TierKeys K) : Prop where
  used : ∀ k ∈ l.all, 0 < lastUse k
  decreasing : l.all.Pairwise fun k k' => lastUse k' < lastUse k

/-- The keys that leave with some events, and why. -/
def departures (events : List (Eviction K V)) : List (K × EvictionReason) :=
  events.map fun e => (e.key, e.reason)

theorem departures_append (events events' : List (Eviction K V)) :
    departures (events ++ events') = departures events ++ departures events' := List.map_append

variable [DecidableEq K]

def without (l : TierKeys K) (k : K) : TierKeys K :=
  ⟨l.memory.filter fun k' => decide (k' ≠ k), l.disk.filter fun k' => decide (k' ≠ k)⟩

def toFront (l : TierKeys K) (k : K) : TierKeys K := ⟨k :: (l.without k).memory, (l.without k).disk⟩

/-- The tiers after a use of a key, or of none. -/
def bring (l : TierKeys K) : Option K → TierKeys K
  | none => l
  | some k => l.toFront k

/-- How keys move down in the course of an operation, and which of them leave, in that order. -/
inductive Course (persistence : Persistence) (lastUse : K → Nat) :
    TierKeys K → List (K × EvictionReason) → TierKeys K → Prop
  | ended (l : TierKeys K) : Course persistence lastUse l [] l
  /-- The least recently used key in memory goes to the disk. -/
  | spill {memory disk : List K} {l' : TierKeys K} {gone : List (K × EvictionReason)} {k : K}
    (hleast : ∀ k' ∈ memory, lastUse k < lastUse k')
    (rest : Course persistence lastUse ⟨memory, k :: disk⟩ gone l') :
    Course persistence lastUse ⟨memory ++ [k], disk⟩ gone l'
  /-- The least recently used of all keys is pushed off the disk. -/
  | pushOff {memory disk : List K} {l' : TierKeys K} {gone : List (K × EvictionReason)} {k : K}
    (hleast : ∀ k' ∈ memory ++ disk, lastUse k < lastUse k')
    (rest : Course persistence lastUse ⟨memory, disk⟩ gone l') :
    Course persistence lastUse ⟨memory, disk ++ [k]⟩ ((k, .capacity) :: gone) l'
  /-- The least recently used key in memory is dropped. Without persistence it is the least recently
  used of all. -/
  | drop {memory disk : List K} {l' : TierKeys K} {gone : List (K × EvictionReason)} {k : K}
    (hleast : ∀ k' ∈ memory, lastUse k < lastUse k')
    (hall : persistence = .none → ∀ k' ∈ memory ++ disk, lastUse k < lastUse k')
    (rest : Course persistence lastUse ⟨memory, disk⟩ gone l') :
    Course persistence lastUse ⟨memory ++ [k], disk⟩ ((k, .overflow) :: gone) l'
  /-- A key expires or is removed. -/
  | leave {l l' : TierKeys K} {gone : List (K × EvictionReason)} {k : K} {reason : EvictionReason}
    (hlisted : k ∈ l.all) (hreason : reason = .expired ∨ reason = .removed)
    (rest : Course persistence lastUse (l.without k) gone l') :
    Course persistence lastUse l ((k, reason) :: gone) l'
  /-- The file of a key on disk turns out to be lost. -/
  | lose {l l' : TierKeys K} {gone : List (K × EvictionReason)} {k : K} (hlisted : k ∈ l.disk)
    (rest : Course persistence lastUse (l.without k) gone l') :
    Course persistence lastUse l gone l'

variable {persistence : Persistence} {lastUse : K → Nat}

theorem Course.trans {l l' l'' : TierKeys K} {gone gone' : List (K × EvictionReason)}
    (h : Course persistence lastUse l gone l')
    (h' : Course persistence lastUse l' gone' l'') :
    Course persistence lastUse l (gone ++ gone') l'' := by
  induction h with
  | ended l => exact h'
  | spill hleast _ ih => exact .spill hleast (ih h')
  | pushOff hleast _ ih => exact .pushOff hleast (ih h')
  | drop hleast hall _ ih => exact .drop hleast hall (ih h')
  | leave hlisted hreason _ ih => exact .leave hlisted hreason (ih h')
  | lose hlisted _ ih => exact .lose hlisted (ih h')

/-! ## The order of last use -/

theorem all_without (l : TierKeys K) (k : K) :
    (l.without k).all = l.all.filter fun k' => decide (k' ≠ k) := (List.filter_append _ _).symm

theorem mem_all_without {l : TierKeys K} {k k' : K} (h : k' ∈ (l.without k).all) :
    k' ≠ k ∧ k' ∈ l.all := by
  rw [all_without, List.mem_filter, decide_eq_true_iff] at h
  exact ⟨h.2, h.1⟩

omit [DecidableEq K] in
theorem ByUse.sublist {l l' : TierKeys K} (h : l.ByUse lastUse) (hl : l'.all.Sublist l.all) :
    l'.ByUse lastUse :=
  ⟨fun k hk => h.used k (hl.subset hk), h.decreasing.sublist hl⟩

theorem ByUse.without {l : TierKeys K} (h : l.ByUse lastUse) (k : K) :
    (l.without k).ByUse lastUse := by
  refine h.sublist ?_
  rw [all_without]
  exact List.filter_sublist

/-- Other keys are used in the order in which they were, whatever happens to the last use of `k`. -/
theorem ByUse.congr_without {lastUse' : K → Nat} {l : TierKeys K} {k : K}
    (h : (l.without k).ByUse lastUse) (hsame : ∀ k', k' ≠ k → lastUse' k' = lastUse k') :
    (l.without k).ByUse lastUse' := by
  refine ⟨fun k' hk' => ?_, h.decreasing.imp_of_mem fun ha hb hlt => ?_⟩
  · rw [hsame k' (mem_all_without hk').1]
    exact h.used k' hk'
  · rw [hsame _ (mem_all_without ha).1, hsame _ (mem_all_without hb).1]
    exact hlt

theorem ByUse.bring {lastUse' : K → Nat} {l : TierKeys K} {used : Option K} {now : Nat}
    (h : l.ByUse lastUse) (hpast : ∀ k, lastUse k < now)
    (huse : ∀ k, lastUse' k = if used = some k then now else lastUse k) :
    (l.bring used).ByUse lastUse' := by
  cases used with
  | none =>
    have hsame : lastUse' = lastUse := funext huse
    rw [hsame]
    exact h
  | some k =>
    have hnow : lastUse' k = now := (huse k).trans (if_pos rfl)
    have hothers : ∀ k', k' ≠ k → lastUse' k' = lastUse k' := fun k' hk' =>
      (huse k').trans (if_neg fun heq => hk' (Option.some.inj heq).symm)
    have hrest := (h.without k).congr_without hothers
    have hall : (l.toFront k).all = k :: (l.without k).all := rfl
    refine ⟨fun k' hk' => ?_, ?_⟩
    · rw [TierKeys.bring, hall, List.mem_cons] at hk'
      rcases hk' with rfl | hk'
      · exact hnow ▸ Nat.zero_lt_of_lt (hpast k')
      · exact hrest.used k' hk'
    · rw [TierKeys.bring, hall]
      refine List.pairwise_cons.2 ⟨fun k' hk' => ?_, hrest.decreasing⟩
      rw [hnow, hothers k' (mem_all_without hk').1]
      exact hpast k'

omit [DecidableEq K] in
theorem ByUse.spill {memory disk : List K} {k : K}
    (h : (⟨memory ++ [k], disk⟩ : TierKeys K).ByUse lastUse) :
    (⟨memory, k :: disk⟩ : TierKeys K).ByUse lastUse := by
  have hsame : (⟨memory, k :: disk⟩ : TierKeys K).all =
      (⟨memory ++ [k], disk⟩ : TierKeys K).all := by simp [all]
  exact h.sublist (hsame ▸ List.Sublist.refl _)

theorem Course.byUse {l l' : TierKeys K} {gone : List (K × EvictionReason)}
    (h : Course persistence lastUse l gone l') (hl : l.ByUse lastUse) : l'.ByUse lastUse := by
  induction h with
  | ended l => exact hl
  | spill _ _ ih => exact ih hl.spill
  | pushOff _ _ ih =>
    exact ih (hl.sublist ((List.sublist_append_left _ _).append_left _))
  | drop _ _ _ ih =>
    exact ih (hl.sublist ((List.sublist_append_left _ _).append_right _))
  | leave _ _ _ ih => exact ih (hl.without _)
  | lose _ _ ih => exact ih (hl.without _)

/-! ## Making room -/

omit [DecidableEq K] in
theorem ByUse.least_memory {memory disk : List K} {k : K}
    (h : (⟨memory ++ [k], disk⟩ : TierKeys K).ByUse lastUse) :
    ∀ k' ∈ memory, lastUse k < lastUse k' := by
  have hmemory := (List.pairwise_append.1 (List.pairwise_append.1 h.decreasing).1).2.2
  exact fun k' hk' => hmemory k' hk' k (List.mem_singleton_self k)

omit [DecidableEq K] in
theorem ByUse.least_all {memory disk : List K} {k : K}
    (h : (⟨memory, disk ++ [k]⟩ : TierKeys K).ByUse lastUse) :
    ∀ k' ∈ memory ++ disk, lastUse k < lastUse k' := by
  have hlist := h.decreasing
  rw [show (⟨memory, disk ++ [k]⟩ : TierKeys K).all = (memory ++ disk) ++ [k] by simp [all]] at hlist
  have hlast := (List.pairwise_append.1 hlist).2.2
  exact fun k' hk' => hlast k' hk' k (List.mem_singleton_self k)

theorem Course.pushOffAll {memory kept : List K} (pushed : List K)
    (h : (⟨memory, kept ++ pushed.reverse⟩ : TierKeys K).ByUse lastUse) :
    Course persistence lastUse ⟨memory, kept ++ pushed.reverse⟩
      (pushed.map fun k => (k, .capacity)) ⟨memory, kept⟩ := by
  induction pushed with
  | nil =>
    rw [List.reverse_nil, List.append_nil]
    exact .ended _
  | cons k pushed ih =>
    rw [List.reverse_cons, ← List.append_assoc] at h ⊢
    exact .pushOff h.least_all (ih (h.sublist ((List.sublist_append_left _ _).append_left _)))

end TierKeys

end CacheLayer
