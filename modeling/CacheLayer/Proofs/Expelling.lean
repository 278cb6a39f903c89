import CacheLayer.Eviction
import CacheLayer.Metrics
import CacheLayer.Proofs.Recency

/-!
# Dropping what is expired

To drop the expired entries of a cache is to keep the others, in every table and list that it has, and
to give account of what was dropped: each entry is told of once and counted once, for its own reason.

* `Table.keep`, `Recency.keep` : what is kept is a filter, and a filter of a filter is one filter.
* `Table.due` : which entries of a table are to be dropped, and why; `DiskTier.mem_expiredKeys`.
* `Accounts` : what was told and counted, against the reason for which each key expired.
* `Lists.accounts` : a list of the expired keys, told of and counted one by one, is an account.
-/

namespace CacheLayer

variable {K : Type u} {V : Type v}

/-! ## Keeping -/

namespace Table

variable {t : Table K V}

theorem keep_keep (t : Table K V) (p q : K → V → Bool) :
    (t.keep p).keep q = t.keep fun k v => p k v && q k v := by
  simp only [keep, List.filter_filter, Bool.and_comm]

theorem keep_congr {p q : K → V → Bool} (h : ∀ e ∈ t.entries, p e.1 e.2 = q e.1 e.2) :
    t.keep p = t.keep q := by
  simp only [keep, List.filter_congr h]

theorem keep_eq_self {p : K → V → Bool} (h : ∀ e ∈ t.entries, p e.1 e.2 = true) : t.keep p = t := by
  obtain ⟨entries, nodup⟩ := t
  simp only [keep, mk.injEq]
  exact List.filter_eq_self.2 h

theorem get?_keep_of_true [DecidableEq K] {p : K → Bool} {k : K} (hk : p k = true) :
    (t.keep fun k _ => p k).get? k = t.get? k := by
  rw [get?_keep]
  cases t.get? k with
  | none => rfl
  | some v => rw [Option.filter_some, if_pos hk]

/-- The keys whose entries there is a reason to drop, with the reasons. -/
def due (t : Table K V) (reason : V → Option Expiration) : List (K × Expiration) :=
  t.entries.filterMap fun e => (reason e.2).map fun x => (e.1, x)

theorem keys_due (t : Table K V) (reason : V → Option Expiration) :
    (t.due reason).map Prod.fst =
      t.entries.filterMap fun e => (reason e.2).map fun _ => e.1 := by
  rw [due, List.map_filterMap]
  simp only [Option.map_map]
  rfl

theorem nodup_due (t : Table K V) (reason : V → Option Expiration) :
    ((t.due reason).map Prod.fst).Nodup := by
  rw [keys_due]
  exact (keys_filterMap_sublist _ _).nodup t.nodup

theorem mem_due [DecidableEq K] (t : Table K V) (reason : V → Option Expiration) (k : K)
    (x : Expiration) :
    (k, x) ∈ t.due reason ↔ ∃ v, t.get? k = some v ∧ reason v = some x := by
  unfold due
  rw [List.mem_filterMap]
  constructor
  · rintro ⟨⟨k', v⟩, hentry, hx⟩
    obtain ⟨x', hx', heq⟩ := Option.map_eq_some_iff.1 hx
    obtain ⟨rfl, rfl⟩ := Prod.mk.inj heq
    exact ⟨v, (t.mem_entries _ _).1 hentry, hx'⟩
  · rintro ⟨v, hget, hx⟩
    exact ⟨(k, v), (t.mem_entries _ _).2 hget, by rw [hx, Option.map_some]⟩

end Table

namespace DiskTier

theorem expiredKeys_eq (t : DiskTier K) (now : Nat) (timeToIdle : Option Duration) :
    t.expiredKeys now timeToIdle =
      t.slots.due fun slot => slot.stamps.expiration now timeToIdle := rfl

theorem nodup_expiredKeys (t : DiskTier K) (now : Nat) (timeToIdle : Option Duration) :
    ((t.expiredKeys now timeToIdle).map Prod.fst).Nodup := by
  rw [expiredKeys_eq]
  exact t.slots.nodup_due _

theorem mem_expiredKeys [DecidableEq K] (t : DiskTier K) (now : Nat)
    (timeToIdle : Option Duration) (k : K) (x : Expiration) :
    (k, x) ∈ t.expiredKeys now timeToIdle ↔ t.expiration now timeToIdle k = some x := by
  rw [expiredKeys_eq, Table.mem_due, expiration, Option.bind_eq_some_iff]

end DiskTier

namespace Recency

/-- The keys that satisfy `p`, with their weights and in their order. -/
def keep (p : K → Bool) (r : Recency K) : Recency K where
  items := r.items.filter fun e => p e.1
  total := ((r.items.filter fun e => p e.1).map Prod.snd).sum

variable {r : Recency K}

theorem keep_keep (r : Recency K) (p q : K → Bool) :
    (r.keep p).keep q = r.keep fun k => p k && q k := by
  simp only [keep, List.filter_filter, Bool.and_comm]

theorem Sound.keep_eq_self (h : r.Sound) {p : K → Bool} (hp : ∀ k ∈ r.keys, p k = true) :
    r.keep p = r := by
  have hitems : (r.items.filter fun e => p e.1) = r.items :=
    List.filter_eq_self.2 fun e he => hp e.1 (List.mem_map_of_mem he)
  unfold keep
  rw [hitems, ← h.total_eq]

theorem Sound.remove_eq_keep [DecidableEq K] (h : r.Sound) (k : K) :
    r.remove k = r.keep fun k' => k' ≠ k := by
  have hself : (r.remove k).keep (fun k' => k' ≠ k) = r.remove k :=
    (h.remove k).keep_eq_self fun k' hk' => decide_eq_true ((r.mem_keys_remove k k').1 hk').1
  rw [← hself]
  unfold keep
  rw [items_remove, List.filter_filter]
  simp only [Bool.and_self]

end Recency

theorem Step.bind_congr {σ : Type u} {ε : Type v} {α : Type w} {β : Type x} {s : Step σ ε α}
    {f g : α → σ → World → Step σ ε β}
    (h : f s.answer s.state s.world = g s.answer s.state s.world) : s.bind f = s.bind g := by
  unfold Step.bind
  dsimp only
  rw [h]

/-! ## Telling and counting -/

def Metrics.expiredAll (m : Metrics) (gone : List (K × Expiration)) : Metrics :=
  gone.foldl (fun m g => m.expired g.2) m

/-- What is told of `gone`, each with its value where that is at hand. -/
def expiryNotices (told : K → Option (Shared V)) (gone : List (K × Expiration)) :
    List (Eviction K V) := gone.map fun g => ⟨g.1, told g.1, .expired⟩

theorem Metrics.expiredAll_append (m : Metrics) (gone gone' : List (K × Expiration)) :
    m.expiredAll (gone ++ gone') = (m.expiredAll gone).expiredAll gone' := List.foldl_append

theorem expiryNotices_append (told : K → Option (Shared V)) (gone gone' : List (K × Expiration)) :
    expiryNotices told (gone ++ gone') = expiryNotices told gone ++ expiryNotices told gone' :=
  List.map_append

theorem expiryNotices_congr {told told' : K → Option (Shared V)} {gone : List (K × Expiration)}
    (h : ∀ g ∈ gone, told g.1 = told' g.1) : expiryNotices told gone = expiryNotices told' gone :=
  List.map_congr_left fun g hg => by rw [h g hg]

def unlisted [DecidableEq K] (gone : List (K × Expiration)) (k : K) : Bool :=
  decide (k ∉ gone.map Prod.fst)

theorem unlisted_append [DecidableEq K] (gone gone' : List (K × Expiration)) :
    unlisted (gone ++ gone') = fun k => unlisted gone k && unlisted gone' k := by
  funext k
  simp only [unlisted, List.map_append, List.mem_append, not_or, Bool.decide_and]

theorem Metrics.expiredAll_eq (m : Metrics) (gone : List (K × Expiration)) :
    m.expiredAll gone = { m with
      evictedByTtl := m.evictedByTtl + gone.countP fun g => g.2 = .live
      evictedByTti := m.evictedByTti + gone.countP fun g => g.2 = .idle } := by
  induction gone generalizing m with
  | nil => rfl
  | cons g gone ih =>
    obtain ⟨k, x⟩ := g
    rw [expiredAll, List.foldl_cons]
    refine (ih (m.expired x)).trans ?_
    cases x <;> simp [expired, Nat.add_assoc, Nat.add_comm 1]

/-- `gone` lists each key that expired once, with its reason. -/
structure Lists (gone : List (K × Expiration)) (reason : K → Option Expiration) : Prop where
  nodup : (gone.map Prod.fst).Nodup
  mem : ∀ k x, (k, x) ∈ gone ↔ reason k = some x

variable {gone : List (K × Expiration)} {reason : K → Option Expiration}

theorem Lists.mem_keys (h : Lists gone reason) (k : K) :
    k ∈ gone.map Prod.fst ↔ (reason k).isSome = true := by
  rw [Option.isSome_iff_exists, List.mem_map]
  constructor
  · rintro ⟨⟨k', x⟩, hg, rfl⟩
    exact ⟨x, (h.mem k' x).1 hg⟩
  · rintro ⟨x, hx⟩
    exact ⟨(k, x), (h.mem k x).2 hx, rfl⟩

theorem Lists.unlisted_eq [DecidableEq K] (h : Lists gone reason) :
    unlisted gone = fun k => (reason k).isNone := by
  funext k
  rw [Bool.eq_iff_iff, unlisted, decide_eq_true_eq, h.mem_keys, Option.isNone_iff_eq_none,
    Option.not_isSome_iff_eq_none]

theorem Lists.eq_nil (h : Lists gone reason) (hnone : ∀ k, reason k = none) : gone = [] := by
  refine List.eq_nil_iff_forall_not_mem.2 fun g hg => ?_
  have hreason := (h.mem g.1 g.2).1 hg
  rw [hnone] at hreason
  cases hreason

theorem Lists.countP_notices (h : Lists gone reason) (told : K → Option (Shared V))
    (x : Expiration) :
    (expiryNotices told gone).countP (fun e => reason e.key = some x) =
      gone.countP fun g => g.2 = x := by
  unfold expiryNotices
  rw [List.countP_map]
  refine List.countP_congr fun g hg => ?_
  have hreason : reason g.1 = some g.2 := (h.mem g.1 g.2).1 hg
  simp [hreason]

variable [DecidableEq K]

theorem Lists.filter_key (h : Lists gone reason) (k : K) :
    (gone.filter fun g => g.1 = k) = ((reason k).map (Prod.mk k)).toList := by
  cases hreason : reason k with
  | none =>
    refine List.filter_eq_nil_iff.2 fun g hg hk => ?_
    obtain ⟨k', x⟩ := g
    obtain rfl : k' = k := of_decide_eq_true hk
    rw [(h.mem k' x).1 hg] at hreason
    cases hreason
  | some x =>
    have hnodup : (gone.filter fun g => g.1 = k).Nodup := (List.Nodup.of_map _ h.nodup).filter _
    refine List.perm_singleton.1 ((List.perm_ext_iff_of_nodup hnodup (List.nodup_singleton _)).2 ?_)
    rintro ⟨k', x'⟩
    rw [List.mem_filter, h.mem, List.mem_singleton, Prod.mk.injEq, decide_eq_true_eq]
    constructor
    · rintro ⟨hx', rfl⟩
      rw [hreason] at hx'
      exact ⟨rfl, (Option.some.inj hx').symm⟩
    · rintro ⟨rfl, rfl⟩
      exact ⟨hreason, rfl⟩

/-- Each key that expired is told of once, with the value that there is to tell, and counted once for
its reason; nothing else is told of or counted. -/
structure Accounts (reason : K → Option Expiration) (told : K → Option (Shared V)) (m m' : Metrics)
    (events : List (Eviction K V)) : Prop where
  once : ∀ k, (events.filter fun e => e.key = k) =
    if (reason k).isSome then [⟨k, told k, .expired⟩] else []
  counted : m' = { m with
    evictedByTtl := m.evictedByTtl + events.countP fun e => reason e.key = some .live
    evictedByTti := m.evictedByTti + events.countP fun e => reason e.key = some .idle }

theorem Lists.accounts (h : Lists gone reason) (told : K → Option (Shared V)) (m : Metrics) :
    Accounts reason told m (m.expiredAll gone) (expiryNotices told gone) where
  once k := by
    have hkey := h.filter_key k
    unfold expiryNotices
    rw [List.filter_map]
    show (gone.filter fun g => g.1 = k).map _ = _
    rw [hkey]
    cases reason k <;> rfl
  counted := by
    rw [h.countP_notices, h.countP_notices]
    exact m.expiredAll_eq gone

end CacheLayer
