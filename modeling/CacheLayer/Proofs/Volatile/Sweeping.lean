import CacheLayer.Proofs.Volatile.Events
import CacheLayer.Proofs.Weyl

/-!
# Sweeps are never starved

An insertion sweeps a shard when its draw says that one is due. Nothing else touches the generator, so
the insertions of a run draw one after the other, whatever happens between them, and the law of the
generator is the law of the sweeps: of any sixteen insertions in a row one sweeps a shard.

* `insert_eq` : an insertion stores, draws, and sweeps the shard that is due.
* `DrawsAs` : what the other operations leave to the insertions after them.
* `sweeps_eq` : what the insertions of a run draw is what the generator gives in a row.
* `sweeps_in_time` : as many insertions as the period says sweep a shard.
* `sweeps_never_starved` : the law for any power of two, any state of the generator and any number of
  shards.
-/

namespace CacheLayer.Volatile

variable {K : Type u} {V : Type v}

def sweepDue (c : Volatile K V) (now : Nat) : Option Nat → Change K V Unit
  | some i => c.sweep now i
  | none => ⟨(), c, []⟩

/-- The later insertions draw from `c'` as they would from `c`. -/
structure DrawsAs (c c' : Volatile K V) : Prop where
  generator : c'.generator = c.generator
  shards : c'.shards.length = c.shards.length

theorem DrawsAs.refl (c : Volatile K V) : c.DrawsAs c := ⟨rfl, rfl⟩

theorem DrawsAs.trans {c c' c'' : Volatile K V} (h : c.DrawsAs c') (h' : c'.DrawsAs c'') :
    c.DrawsAs c'' :=
  ⟨h'.generator.trans h.generator, h'.shards.trans h.shards⟩

theorem drawsAs_setShard (c : Volatile K V) (i : Nat) (t : Table K (Entry V)) :
    c.DrawsAs (c.setShard i t) := ⟨rfl, List.length_set⟩

theorem drawsAs_sweep (c : Volatile K V) (now i : Nat) : c.DrawsAs (c.sweep now i).cache := by
  unfold sweep
  split
  · exact .refl c
  · have hkept := c.drawsAs_setShard i ((c.shard i).keep fun _ e => c.live now e)
    exact ⟨hkept.generator, hkept.shards⟩

theorem drawsAs_sweepDue (c : Volatile K V) (now : Nat) (due : Option Nat) :
    c.DrawsAs (c.sweepDue now due).cache := by
  cases due with
  | none => exact .refl c
  | some i => exact c.drawsAs_sweep now i

theorem drawsAs_sweepAll (is : List Nat) (c : Volatile K V) (now : Nat) :
    c.DrawsAs (c.sweepAll now is).cache := by
  induction is generalizing c with
  | nil => exact .refl c
  | cons i is ih => exact (c.drawsAs_sweep now i).trans (ih _)

theorem drawsAs_close (c : Volatile K V) : c.DrawsAs c.close := ⟨rfl, List.length_map _⟩

variable [DecidableEq K]

theorem drawsAs_remove (c : Volatile K V) (now : Nat) (k : K) :
    c.DrawsAs (c.remove now k).cache := by
  have herased : c.DrawsAs (c.erase k) := c.drawsAs_setShard _ _
  unfold Volatile.remove
  split
  · exact .refl c
  · split
    · exact ⟨herased.generator, herased.shards⟩
    · exact ⟨herased.generator, herased.shards⟩

theorem drawsAs_get (c : Volatile K V) (now : Nat) (k : K) : c.DrawsAs (c.get now k).cache := by
  have herased : c.DrawsAs (c.erase k) := c.drawsAs_setShard _ _
  unfold Volatile.get
  split
  · exact ⟨rfl, rfl⟩
  · rename_i e _
    have htouched : c.DrawsAs (c.store k { e with stamps := e.stamps.touch now }) :=
      c.drawsAs_setShard _ _
    split
    · exact ⟨herased.generator, herased.shards⟩
    · dsimp only
      split
      · exact ⟨htouched.generator, htouched.shards⟩
      · exact ⟨rfl, rfl⟩

/-! ## Insertions -/

theorem insert_eq (c : Volatile K V) (now : Nat) (k : K) (value : Shared V) :
    c.insert now k value =
      (c.inserted now k value (c.generator.draw sweepPeriod c.shards.length).2).sweepDue now
        (c.generator.draw sweepPeriod c.shards.length).1 := by
  have hstored : (c.store k ⟨value, 1, .create now c.timeToLive c.timeToIdle⟩).shards.length =
      c.shards.length := List.length_set
  unfold insert Weyl.draw
  dsimp only
  rw [hstored]
  by_cases hdue : (c.generator.shouldRun sweepPeriod).1 = true
  · rw [if_pos hdue]
    exact if_pos hdue
  · rw [if_neg hdue]
    exact if_neg hdue

theorem drawsAs_insert (c : Volatile K V) (now : Nat) (k : K) (value : Shared V) :
    DrawsAs { c with generator := (c.generator.draw sweepPeriod c.shards.length).2 }
      (c.insert now k value).cache := by
  have hinserted (generator : Weyl) :
      DrawsAs { c with generator } (c.inserted now k value generator) := ⟨rfl, List.length_set⟩
  rw [insert_eq]
  exact (hinserted _).trans (drawsAs_sweepDue _ now _)

def draws (c : Volatile K V) : MapRequest K (Shared V) → List (Option Nat)
  | .insert _ _ => [(c.generator.draw sweepPeriod c.shards.length).1]
  | _ => []

/-- The shards that the insertions of a run sweep, an entry for each insertion: none where it sweeps
no shard. -/
def sweeps (c : Volatile K V) (now : Nat) : List (MapTurn K (Shared V)) → List (Option Nat)
  | [] => []
  | .wait time :: turns => c.sweeps (now + time) turns
  | .request r :: turns => c.draws r ++ (c.serve now r).2.sweeps now turns
  | .purgeExpired :: turns => (c.purgeExpired now).cache.sweeps now turns
  | .close :: turns => c.close.sweeps now turns

def ahead (c : Volatile K V) (count : Nat) : List (Option Nat) :=
  (List.range count).map (c.generator.due sweepPeriod c.shards.length)

omit [DecidableEq K] in
theorem DrawsAs.ahead {c c' : Volatile K V} (h : c.DrawsAs c') (count : Nat) :
    c'.ahead count = c.ahead count := by
  unfold Volatile.ahead
  rw [h.generator, h.shards]

theorem ahead_insert (c : Volatile K V) (now : Nat) (k : K) (value : Shared V) (count : Nat) :
    c.ahead (count + 1) =
      (c.generator.draw sweepPeriod c.shards.length).1 ::
        (c.insert now k value).cache.ahead count := by
  rw [(c.drawsAs_insert now k value).ahead count]
  unfold Volatile.ahead
  rw [List.range_succ_eq_map, List.map_cons, List.map_map]
  refine congrArg _ (List.map_congr_left fun n _ => ?_)
  exact (congrArg _ (Nat.add_comm n 1)).trans (Weyl.due_add _ _ _ 1 n)

/-- What the insertions of a run draw is what the generator gives in a row, whatever happens between
them. -/
theorem sweeps_eq (c : Volatile K V) (now : Nat) (turns : List (MapTurn K (Shared V))) :
    c.sweeps now turns = c.ahead (c.sweeps now turns).length := by
  induction turns generalizing c now with
  | nil => rfl
  | cons turn turns ih =>
    cases turn with
    | wait time => exact ih c _
    | purgeExpired => exact (ih _ now).trans ((c.drawsAs_sweepAll _ now).ahead _)
    | close => exact (ih _ now).trans (c.drawsAs_close.ahead _)
    | request r =>
      cases r with
      | insert k value =>
        refine Eq.trans ?_ (c.ahead_insert now k value _).symm
        exact congrArg _ (ih (c.insert now k value).cache now)
      | remove k => exact (ih _ now).trans ((c.drawsAs_remove now k).ahead _)
      | get k => exact (ih _ now).trans ((c.drawsAs_get now k).ahead _)
      | contains k => exact ih c now
      | keys => exact ih c now
      | size => exact ih c now

theorem sweepPeriod_isPowerOfTwo : sweepPeriod.toNat.isPowerOfTwo := ⟨4, rfl⟩

/-- Of as many insertions as the period says one sweeps a shard of the cache, in whatever state the
run finds it and whatever else happens in the run. -/
theorem sweeps_in_time {c : Volatile K V} (hshards : 0 < c.shards.length) (now : Nat)
    {turns : List (MapTurn K (Shared V))}
    (hmany : sweepPeriod.toNat ≤ (c.sweeps now turns).length) :
    ∃ i < c.shards.length, some i ∈ c.sweeps now turns := by
  obtain ⟨n, -, hn, hdue⟩ :=
    c.generator.due_within_period sweepPeriod_isPowerOfTwo c.shards.length 0
  obtain ⟨i, hi⟩ := Option.isSome_iff_exists.1 hdue
  refine ⟨i, Weyl.lt_of_due hshards hi, ?_⟩
  rw [sweeps_eq]
  exact List.mem_map.2 ⟨n, List.mem_range.2 (by omega), hi⟩

/-- **Sweeps are never starved.** Where each write draws whether a shard is due, and then which one
of `bound` many, any `period` writes in a row have one at which a shard is due, and every shard drawn
is below the bound: for any power of two as the period, and any state of the generator, from which it
may wrap. An insertion is such a write, and it sweeps the shard that is due. -/
theorem sweeps_never_starved (g : Weyl) {period : UInt64} (hperiod : period.toNat.isPowerOfTwo)
    {bound : Nat} (hbound : 0 < bound) :
    (∀ start, ∃ n, start ≤ n ∧ n < start + period.toNat ∧
      (g.due period bound n).isSome = true) ∧
    (∀ n i, g.due period bound n = some i → i < bound) ∧
    ∀ (c : Volatile K V) (now : Nat) (k : K) (value : Shared V),
      let drawn := c.generator.draw sweepPeriod c.shards.length
      c.insert now k value = (c.inserted now k value drawn.2).sweepDue now drawn.1 :=
  ⟨g.due_within_period hperiod bound, fun _ _ => Weyl.lt_of_due hbound, insert_eq⟩

/-- From the last state of all, with one write in four due and five shards: the state wraps at the first
write, the second sweeps a shard, and from then on each third one does. -/
theorem sweeps_never_starved_wrapping :
    (4 : UInt64).toNat.isPowerOfTwo ∧ 0 < 5 ∧
      (∃ n, 2 ≤ n ∧ n < 2 + (4 : UInt64).toNat ∧
        ((Weyl.mk 18446744073709551615).due 4 5 n).isSome = true) ∧
      (List.range 9).map ((Weyl.mk 18446744073709551615).due 4 5) =
        [none, some 2, none, none, some 4, none, none, some 0, none] := by
  have hperiod : (4 : UInt64).toNat.isPowerOfTwo := ⟨2, rfl⟩
  obtain ⟨hdue, -, -⟩ := sweeps_never_starved (K := Nat) (V := Nat) ⟨18446744073709551615⟩ hperiod
    (Nat.succ_pos 4)
  exact ⟨hperiod, by decide, hdue 2, by decide⟩

end CacheLayer.Volatile
