import CacheLayer.Weyl
import Mathlib.Data.Int.GCD
import Mathlib.Data.Nat.ModEq

/-!
# How often a Weyl generator says that something is due

A write draws from the generator to learn whether a shard is due for a sweep, and draws once more for
the number of the shard if one is. Something is due when the period, a power of two, divides the
state. Modulo the period the state grows by an odd number, so it meets every residue within one
period, from wherever it starts; that it wraps at `2 ^ 64` does not show, as the period divides that.

* `draw`, `due` : what one write draws, and what the writes after it draw.
* `shouldRun_iff` : something is due when the period divides the state.
* `state_after_quiet` : the state after writes at which nothing was due.
* `due_within_period` : within one period something is due.
* `due_again_iff` : the draw for the number takes the place of a write, so after one that is due the
  next comes one write earlier than the period says.
-/

namespace CacheLayer.Weyl

/-- What one write draws: the shard that is due, if one is, and the generator after it. -/
def draw (g : Weyl) (period : UInt64) (bound : Nat) : Option Nat × Weyl :=
  let asked := g.shouldRun period
  if asked.1 then
    let shard := asked.2.below bound
    (some shard.1, shard.2)
  else (none, asked.2)

def after (g : Weyl) (period : UInt64) (bound : Nat) : Nat → Weyl
  | 0 => g
  | n + 1 => ((g.after period bound n).draw period bound).2

/-- The shard that is due at the write of number `n`, if one is; the first write is number zero. -/
def due (g : Weyl) (period : UInt64) (bound n : Nat) : Option Nat :=
  ((g.after period bound n).draw period bound).1

variable {g : Weyl} {period : UInt64} {bound : Nat}

theorem after_add (g : Weyl) (period : UInt64) (bound m n : Nat) :
    g.after period bound (m + n) = (g.after period bound m).after period bound n := by
  induction n with
  | zero => rfl
  | succ n ih => rw [← Nat.add_assoc, after, ih, after]

theorem due_add (g : Weyl) (period : UInt64) (bound m n : Nat) :
    g.due period bound (m + n) = (g.after period bound m).due period bound n := by
  rw [due, after_add, due]

theorem draw_of_quiet (h : (g.draw period bound).1 = none) :
    (g.draw period bound).2 = g.next.2 := by
  unfold draw at h ⊢
  dsimp only at h ⊢
  split at h
  · cases h
  · rename_i hnot
    rw [if_neg hnot]
    rfl

theorem draw_of_due (h : (g.draw period bound).1.isSome = true) :
    (g.draw period bound).2 = g.next.2.next.2 := by
  unfold draw at h ⊢
  dsimp only at h ⊢
  split at h
  · rename_i hasked
    rw [if_pos hasked]
    rfl
  · cases h

theorem lt_of_due {n i : Nat} (hbound : 0 < bound) (h : g.due period bound n = some i) :
    i < bound := by
  unfold due draw at h
  dsimp only at h
  split at h
  · cases h
    exact Nat.mod_lt _ hbound
  · cases h

/-! ## Modulo the period -/

theorem period_dvd (hperiod : period.toNat.isPowerOfTwo) : period.toNat ∣ 2 ^ 64 := by
  obtain ⟨k, hk⟩ := hperiod
  have hlt : 2 ^ k < 2 ^ 64 := hk ▸ period.toNat_lt
  rw [hk]
  exact Nat.pow_dvd_pow 2 (Nat.le_of_lt ((Nat.pow_lt_pow_iff_right (by omega)).1 hlt))

theorem period_pos (hperiod : period.toNat.isPowerOfTwo) : 0 < period.toNat :=
  Nat.pos_of_isPowerOfTwo hperiod

theorem coprime_increment (hperiod : period.toNat.isPowerOfTwo) :
    increment.toNat.Coprime period.toNat := by
  obtain ⟨k, hk⟩ := hperiod
  rw [hk]
  apply Nat.Coprime.pow_right
  decide

theorem shouldRun_iff (g : Weyl) (hperiod : period.toNat.isPowerOfTwo) :
    (g.shouldRun period).1 = true ↔ period.toNat ∣ g.state.toNat := by
  have hone : (1 : UInt64) ≤ period := UInt64.le_iff_toNat_le.2 (period_pos hperiod)
  have hlow : (g.state &&& (period - 1)).toNat = g.state.toNat % period.toNat := by
    obtain ⟨k, hk⟩ := hperiod
    rw [UInt64.toNat_and, UInt64.toNat_sub_of_le _ _ hone, hk]
    exact Nat.and_two_pow_sub_one_eq_mod _ k
  show decide (g.state &&& (period - 1) = 0) = true ↔ _
  rw [decide_eq_true_iff, ← UInt64.toNat_inj, hlow, Nat.dvd_iff_mod_eq_zero]
  rfl

/-- A draw adds the increment, and the wrap does not show. -/
theorem state_next (g : Weyl) (hperiod : period.toNat.isPowerOfTwo) :
    g.next.2.state.toNat ≡ g.state.toNat + increment.toNat [MOD period.toNat] := by
  show (g.state + increment).toNat ≡ _ [MOD _]
  rw [UInt64.toNat_add]
  exact (Nat.mod_modEq _ _).of_dvd (period_dvd hperiod)

theorem isSome_due_iff (g : Weyl) (hperiod : period.toNat.isPowerOfTwo) (bound n : Nat) :
    (g.due period bound n).isSome = true ↔
      period.toNat ∣ (g.after period bound n).state.toNat := by
  rw [← shouldRun_iff _ hperiod]
  unfold due draw
  dsimp only
  split
  · rename_i hasked
    exact iff_of_true rfl hasked
  · rename_i hnot
    exact iff_of_false Bool.false_ne_true hnot

theorem state_after_quiet_write {n : Nat} (hperiod : period.toNat.isPowerOfTwo)
    (hquiet : g.due period bound n = none) :
    (g.after period bound (n + 1)).state.toNat ≡
      (g.after period bound n).state.toNat + increment.toNat [MOD period.toNat] := by
  rw [after, draw_of_quiet hquiet]
  exact state_next _ hperiod

theorem state_after_due_write {n : Nat} (hperiod : period.toNat.isPowerOfTwo)
    (hdue : (g.due period bound n).isSome = true) :
    (g.after period bound (n + 1)).state.toNat ≡
      (g.after period bound n).state.toNat + 2 * increment.toNat [MOD period.toNat] := by
  rw [after, draw_of_due hdue, Nat.two_mul, ← Nat.add_assoc]
  have hfirst := state_next (g.after period bound n) hperiod
  exact (state_next _ hperiod).trans (hfirst.add_right _)

theorem state_after_quiet {start count : Nat} (hperiod : period.toNat.isPowerOfTwo)
    (hquiet : ∀ j < count, g.due period bound (start + j) = none) :
    (g.after period bound (start + count)).state.toNat ≡
      (g.after period bound start).state.toNat + count * increment.toNat [MOD period.toNat] := by
  induction count with
  | zero => simp [Nat.ModEq.refl]
  | succ count ih =>
    have hbefore := ih fun j hj => hquiet j (by omega)
    have hlast := state_after_quiet_write hperiod (hquiet count (by omega))
    rw [Nat.add_one_mul, ← Nat.add_assoc (g.after period bound start).state.toNat]
    exact hlast.trans (hbefore.add_right increment.toNat)

/-! ## Within one period -/

theorem exists_step_dvd (hperiod : period.toNat.isPowerOfTwo) (s : Nat) :
    ∃ n < period.toNat, period.toNat ∣ s + n * increment.toNat := by
  have hpos := period_pos hperiod
  obtain ⟨n, hn, hmod⟩ := Nat.exists_mul_mod_eq_of_coprime (period.toNat - s % period.toNat)
    (coprime_increment hperiod) (by omega)
  have hlt : s % period.toNat < period.toNat := Nat.mod_lt s hpos
  refine ⟨n, hn, Nat.dvd_of_mod_eq_zero ?_⟩
  calc (s + n * increment.toNat) % period.toNat
      = (s % period.toNat + increment.toNat * n % period.toNat) % period.toNat := by
        rw [Nat.add_mod, Nat.mul_comm]
    _ = (s % period.toNat + (period.toNat - s % period.toNat)) % period.toNat := by
        rw [hmod, Nat.add_mod_mod]
    _ = 0 := by rw [Nat.add_sub_cancel' (Nat.le_of_lt hlt), Nat.mod_self]

/-- **Within one period something is due**, whatever was drawn before. -/
theorem due_within_period (g : Weyl) (hperiod : period.toNat.isPowerOfTwo) (bound start : Nat) :
    ∃ n, start ≤ n ∧ n < start + period.toNat ∧ (g.due period bound n).isSome = true := by
  by_contra hnever
  have hquiet : ∀ j < period.toNat, g.due period bound (start + j) = none := by
    intro j hj
    rw [← Option.not_isSome_iff_eq_none]
    intro hdue
    exact hnever ⟨start + j, by omega, by omega, hdue⟩
  -- Where nothing was due so far, the state has gone one step for each write, and meets zero.
  obtain ⟨n, hn, hdvd⟩ := exists_step_dvd hperiod (g.after period bound start).state.toNat
  have hstate := state_after_quiet hperiod fun j hj => hquiet j (Nat.lt_trans hj hn)
  have hdue := (isSome_due_iff g hperiod bound (start + n)).2
    ((hstate.dvd_iff (Nat.dvd_refl _)).2 hdvd)
  rw [hquiet n hn] at hdue
  cases hdue

theorem isSome_due_after_iff {n count : Nat} (hperiod : period.toNat.isPowerOfTwo)
    (hdue : (g.due period bound n).isSome = true)
    (hquiet : ∀ j < count, g.due period bound (n + 1 + j) = none) :
    (g.due period bound (n + 1 + count)).isSome = true ↔ period.toNat ∣ count + 2 := by
  have hzero := (isSome_due_iff g hperiod bound n).1 hdue
  have hstate := (state_after_quiet hperiod hquiet).trans
    ((state_after_due_write hperiod hdue).add_right (count * increment.toNat))
  rw [isSome_due_iff g hperiod, hstate.dvd_iff (Nat.dvd_refl _), Nat.add_assoc,
    Nat.dvd_add_right hzero, ← Nat.add_mul, Nat.add_comm 2,
    (coprime_increment hperiod).symm.dvd_mul_right]

/-- After a write at which a shard was due, the next comes exactly one write earlier than the period
says: the draw for the number of the shard stands for a write. -/
theorem due_again_iff {n m : Nat} (hperiod : period.toNat.isPowerOfTwo)
    (hdue : (g.due period bound n).isSome = true) (hm : 0 < m) (hlast : m < period.toNat) :
    (g.due period bound (n + m)).isSome = true ↔ m + 1 = period.toNat := by
  induction m using Nat.strong_induction_on with
  | _ m ih =>
    obtain ⟨count, rfl⟩ : ∃ count, m = 1 + count := ⟨m - 1, by omega⟩
    have hquiet : ∀ j < count, g.due period bound (n + 1 + j) = none := by
      intro j hj
      rw [← Option.not_isSome_iff_eq_none, Nat.add_assoc, ih (1 + j) (by omega) (by omega) (by omega)]
      omega
    rw [← Nat.add_assoc, isSome_due_after_iff hperiod hdue hquiet]
    constructor
    · intro hdvd
      have := Nat.le_of_dvd (by omega) hdvd
      omega
    · intro heq
      rw [← heq]
      exact dvd_of_eq (by omega)

end CacheLayer.Weyl
