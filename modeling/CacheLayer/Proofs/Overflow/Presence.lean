import CacheLayer.Proofs.Overflow.Account

/-!
# What makes a key present

Of a two-tier cache: a key that an operation does not store under is present afterwards only if it was
present before, and has an entry only if it had one. An operation takes no time and gives no object
that is already there.

* `Sound.contains_iff` : a key is present if it stands in the cache and is live.
* `Sound.contains_perform`, `Sound.vacant_perform` : what an operation can make of another key.
* `Sound.around_perform` : what it makes of the world.
-/

namespace CacheLayer.Overflow

variable {K : Type u} {V : Type v} [DecidableEq K] {c : Overflow K V} {w : World}

theorem Sound.contains_iff (h : c.Sound) (hdated : c.Dated) (w : World) (k : K) :
    c.contains w k = true ↔ Live w.now c.settings.timeToIdle c.standing? k := by
  rw [h.contains_eq hdated, stamps?_eq]
  unfold Live
  cases c.standing? k with
  | none => simp
  | some s => simp [fresh]

theorem Sound.contains_perform (h : c.Sound) (hdated : c.Dated) (w : World) (op : Op K V) {k : K}
    (hk : k ∉ op.stored) {later : World} (hnow : later.now = w.now)
    (hpresent : (c.perform w op).state.contains later k = true) : c.contains later k = true := by
  obtain ⟨ms, haccount, hms⟩ := h.perform_account w op
  rw [h.contains_iff hdated, hnow]
  rw [(h.perform w op).contains_iff (hdated.perform h w op), hnow,
    (h.sameSetup_perform w op).settings] at hpresent
  refine haccount.traffic.live_before ?_ hpresent
  rwa [hms.stored]

theorem Sound.vacant_perform (h : c.Sound) (w : World) (op : Op K V) {k : K} (hk : k ∉ op.stored)
    (hvacant : c.standing? k = none) : (c.perform w op).state.standing? k = none := by
  obtain ⟨ms, haccount, hms⟩ := h.perform_account w op
  have hcount := haccount.traffic.count k
  rw [hms.stored, List.count_eq_zero.2 hk, standings, standings, hvacant] at hcount
  by_contra hstands
  rw [if_pos (Option.isSome_iff_ne_none.2 hstands)] at hcount
  simp at hcount

theorem Sound.contains_of_get (h : c.Sound) (hdated : c.Dated) {k : K} {value : Shared V}
    (hget : (c.get w k).answer = some value) : c.contains w k = true := by
  rw [h.contains_iff hdated]
  rw [get_answer, peek] at hget
  split at hget
  · rename_i e he
    split at hget
    · rename_i hlive
      exact ⟨_, standing?_of_get? he, Option.isNone_iff_eq_none.1 hlive⟩
    · cases hget
  · rename_i he
    obtain ⟨found, hfound, hget⟩ := Option.bind_eq_some_iff.1 hget
    obtain ⟨t, hdisk, hview⟩ := Option.bind_eq_some_iff.1 hfound
    obtain ⟨stamps, hstamps, hview⟩ := Option.bind_eq_some_iff.1 hview
    obtain ⟨bytes, -, hview⟩ := Option.bind_eq_some_iff.1 hview
    obtain ⟨v, -, rfl⟩ := Option.map_eq_some_iff.1 hview
    split at hget
    · rename_i hlive
      exact ⟨_, standing?_of_stamps? he hdisk hstamps, Option.isNone_iff_eq_none.1 hlive⟩
    · cases hget

/-! ## The world -/

theorem around_clearedWorld (c : Overflow K V) (w : World) (k : K) :
    w.Around (c.clearedWorld w k) := by
  unfold clearedWorld
  split
  · exact .refl w
  · exact ⟨rfl, rfl, Nat.le_refl _⟩

theorem Found.around {k : K} {s : Step (Overflow K V) (Eviction K V) (Option (Shared V))}
    (hs : Found c w k s) (h : c.Sound) : w.Around s.world := by
  cases hs with
  | absent hmemory hdisk => exact .refl w
  | gone hs =>
    cases hs with
    | expiredInMemory hget hx => exact (Shed.expireMemory hget hx).around h
    | expiredOnDisk hmemory hdisk hx => exact (Shed.expireDisk hdisk hx).around h
    | lost hmemory hdisk hlive htake hunread => exact ⟨rfl, rfl, Nat.le_refl _⟩
  | hit hget hlive => exact .refl w
  | promoted hmemory hdisk hstamps hlive hcontent hread =>
    have hfront := (lifted_vacant h hmemory hdisk).atFront
    refine World.Around.trans ?_ ((takeIn_sheds (hfront _) _).around (hfront _))
    exact ⟨rfl, rfl, Nat.le_succ _⟩

theorem Sound.around_purgeExpired (h : c.Sound) (w : World) :
    w.Around (c.purgeExpired w).world := (purgeExpired_sheds h w).around h

omit [DecidableEq K] in
theorem around_close (c : Overflow K V) (w : World) : w.Around (c.close w).world := by
  unfold close
  dsimp only
  split
  · exact .refl w
  · exact ⟨rfl, rfl, Nat.le_refl _⟩

theorem Sound.around_serve (h : c.Sound) (w : World) (r : MapRequest K (Shared V)) :
    w.Around (c.serve w r).world := by
  cases r with
  | insert k value =>
    have hfront := (h.dropBoth k).atFront (c.freshEntry w value)
    show w.Around (c.insert w k value).world
    rw [h.insert_eq]
    exact (c.around_clearedWorld w k).trans ((takeIn_sheds hfront _).around hfront)
  | remove k =>
    show w.Around (c.remove w k).world
    rw [h.remove_world]
    exact c.around_clearedWorld w k
  | get k => exact (find_found c w k).around h
  | contains k => exact .refl w
  | keys => exact h.around_purgeExpired w
  | size => exact h.around_purgeExpired w

theorem Sound.around_perform (h : c.Sound) (w : World) (op : Op K V) :
    w.Around (c.perform w op).world := by
  cases op with
  | request r => exact h.around_serve w r
  | purgeExpired => exact h.around_purgeExpired w
  | close => exact c.around_close w
  | outside change => exact ⟨rfl, rfl, Nat.le_refl _⟩

end CacheLayer.Overflow
