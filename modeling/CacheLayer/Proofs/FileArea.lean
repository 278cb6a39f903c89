import CacheLayer.FileArea
import CacheLayer.Proofs.Table

/-!
# The theory of the file area

A private directory is seen through `read`, the contents of its files by name, and a change of the
area from outside through `Loses`: it may take files and directories away, and leaves what is left
as it was.

* `Path.landing` : where a path leads that leads anywhere; `reach_eq_landing`.
* `read_write`, `read_delete` : what a write and a deletion do to the contents.
* `loses_delete`, `loses_deleteTier`, `loses_restoreTier` : deleting a file or a whole directory and
  putting an empty directory in its place lose files and change none.
* `makeFirst_eq` : making directories leaves the files and the private directories as they are.
* `paddedHex_injective` : numbers are told apart by their texts.
-/

namespace CacheLayer

/-! ## Where paths lead -/

namespace Path

def enter (done : Path) (name : String) : Path :=
  if stays name then done else if name = ".." then done.back else done ++ [name]

/-- The path without detours of the directory that a path names, if it exists. -/
def landing (p : Path) : Path := p.foldl enter []

end Path

namespace FileArea

theorem walk_eq_foldl_enter {a : FileArea} {names done path : Path}
    (h : a.walk done names = .ok path) : path = names.foldl Path.enter done := by
  induction names generalizing done with
  | nil => exact (Except.ok.inj h).symm
  | cons name rest ih =>
    rw [walk] at h
    rw [List.foldl_cons, Path.enter]
    split at h
    · rename_i hstays
      rw [if_pos hstays]
      exact ih h
    · rename_i hstays
      rw [if_neg hstays]
      split at h
      · rename_i hback
        rw [if_pos hback]
        exact ih h
      · rename_i hback
        rw [if_neg hback]
        split at h
        · cases h
        · split at h
          · exact ih h
          · split at h <;> cases h

theorem reach_eq_landing {a : FileArea} {p path : Path} (h : a.reach p = some path) :
    path = p.landing := by
  unfold reach at h
  split at h
  · cases h
  · cases hwalk : a.walk [] p with
    | error obstacle =>
      rw [hwalk] at h
      cases h
    | ok done =>
      rw [hwalk] at h
      obtain rfl := Option.some.inj h
      exact walk_eq_foldl_enter hwalk

/-! ## Files of private directories -/

theorem write_isSome (a : FileArea) (number : Nat) (name : String) (bytes : List UInt8) :
    (a.write number name bytes).isSome = (a.hasTier number && !a.unwritable number name) := by
  unfold write hasTier Table.contains
  cases a.unwritable number name <;> simp

theorem write_eq_some {a b : FileArea} {number : Nat} {name : String} {bytes : List UInt8}
    (h : a.write number name bytes = some b) :
    ∃ d, a.tiers.get? number = some d ∧
      b = { a with tiers := a.tiers.insert number { d with files := d.files.insert name bytes } } := by
  unfold write at h
  split at h
  · cases h
  · obtain ⟨d, hd, rfl⟩ := Option.map_eq_some_iff.1 h
    exact ⟨d, hd, rfl⟩

theorem read_write {a b : FileArea} {number : Nat} {name : String} {bytes : List UInt8}
    (h : a.write number name bytes = some b) (number' : Nat) (name' : String) :
    b.read number' name' =
      if number' = number ∧ name' = name then some bytes else a.read number' name' := by
  obtain ⟨d, hd, rfl⟩ := write_eq_some h
  unfold read
  rw [Table.get?_insert]
  by_cases hn : number' = number
  · subst hn
    by_cases hm : name' = name <;> simp [hd, hm]
  · simp [hn]

theorem read_delete (a : FileArea) (number number' : Nat) (name name' : String) :
    (a.delete number name).read number' name' =
      if number' = number ∧ name' = name then none else a.read number' name' := by
  unfold read delete
  rw [Table.get?_modify]
  by_cases hn : number' = number
  · subst hn
    cases a.tiers.get? number' with
    | none => simp
    | some d => by_cases hm : name' = name <;> simp [hm]
  · simp [hn]

theorem hasTier_write {a b : FileArea} {number : Nat} {name : String} {bytes : List UInt8}
    (h : a.write number name bytes = some b) (number' : Nat) :
    b.hasTier number' = a.hasTier number' := by
  obtain ⟨d, hd, rfl⟩ := write_eq_some h
  unfold hasTier
  rw [Table.contains_insert]
  by_cases hn : number' = number
  · simp [hn, Table.contains_of_get? hd]
  · simp [hn]

theorem hasTier_delete (a : FileArea) (number number' : Nat) (name : String) :
    (a.delete number name).hasTier number' = a.hasTier number' := by
  unfold hasTier delete Table.contains
  rw [Table.get?_modify]
  by_cases hn : number' = number <;> simp [hn]

theorem unwritable_write {a b : FileArea} {number : Nat} {name : String} {bytes : List UInt8}
    (h : a.write number name bytes = some b) : b.unwritable = a.unwritable := by
  obtain ⟨d, -, rfl⟩ := write_eq_some h
  rfl

/-! ## Making directories -/

theorem make_eq {a a' : FileArea} {path : Path} (h : a.make path = .ok a') :
    ∃ directories, a' = { a with directories } := by
  unfold make at h
  split at h
  · cases h
  · split at h
    · exact ⟨_, (Except.ok.inj h).symm⟩
    · rename_i name rest _
      cases hwalk : a.walk [] rest.reverse with
      | error obstacle =>
        rw [hwalk] at h
        cases h
      | ok done =>
        rw [hwalk] at h
        simp only [bind, Except.bind, pure, Except.pure] at h
        split at h
        · exact ⟨_, (Except.ok.inj h).symm⟩
        · unfold makeNamed at h
          split at h
          · cases h
          · split at h <;> exact ⟨_, (Except.ok.inj h).symm⟩

theorem makeFirst_eq (paths : List Path) (a : FileArea) :
    ∃ directories, (a.makeFirst paths).2 = { a with directories } := by
  induction paths generalizing a with
  | nil => exact ⟨_, rfl⟩
  | cons path above ih =>
    rw [makeFirst]
    split
    · rename_i a' hmake
      exact make_eq hmake
    · exact ⟨_, rfl⟩
    · obtain ⟨directories, habove⟩ := ih a
      split
      · rename_i a' hfirst
        rw [hfirst] at habove
        exact ⟨directories, habove⟩
      · rename_i a' hfirst
        rw [hfirst] at habove
        obtain rfl : a' = { a with directories } := habove
        split
        · rename_i a'' hmake
          obtain ⟨directories', rfl⟩ := make_eq hmake
          exact ⟨directories', rfl⟩
        · exact ⟨directories, rfl⟩

/-! ## Changes from outside -/

/-- A change that takes files away and leaves the others as they were. -/
def Loses (change : FileArea → FileArea) : Prop :=
  ∀ a number name bytes, (change a).read number name = some bytes →
    a.read number name = some bytes

/-- A change that leaves the files of one private directory as they are, where there are any. -/
def Spares (number : Nat) (change : FileArea → FileArea) : Prop :=
  ∀ a name bytes, a.read number name = some bytes → (change a).read number name = some bytes

theorem loses_delete (number : Nat) (name : String) : Loses fun a => a.delete number name := by
  intro a number' name' bytes h
  simp only [read_delete] at h
  split at h
  · cases h
  · exact h

theorem loses_deleteTier (number : Nat) : Loses fun a => a.deleteTier number := by
  intro a number' name bytes h
  unfold read deleteTier at h
  rw [Table.get?_erase] at h
  split at h
  · cases h
  · exact h

theorem loses_restoreTier (number : Nat) (parent : Path) (stem : String) :
    Loses fun a => (a.restoreTier number parent stem).getD a := by
  intro a number' name bytes h
  unfold restoreTier at h
  dsimp only at h
  split at h
  · exact h
  · cases hreach : a.reach parent with
    | none => simpa [hreach] using h
    | some path =>
      simp only [hreach, Option.map_some, Option.getD_some] at h
      unfold read at h ⊢
      rw [Table.get?_insert] at h
      split at h
      · cases h
      · exact h

end FileArea

/-! ## Numbers in texts -/

namespace Text

def hexDigitValue (c : Char) : Nat := if c.toNat < 58 then c.toNat - 48 else c.toNat - 87

def hexValue (digits : List Char) : Nat := digits.foldl (fun n c => 16 * n + hexDigitValue c) 0

theorem hexDigitValue_digitChar : ∀ {d : Nat}, d < 16 → hexDigitValue d.digitChar = d := by decide

theorem hexValue_toDigits (n : Nat) : hexValue (Nat.toDigits 16 n) = n := by
  induction n using Nat.strongRecOn with
  | _ n ih =>
    rcases Nat.lt_or_ge n 16 with h | h
    · rw [Nat.toDigits_of_lt_base h]
      simp [hexValue, hexDigitValue_digitChar h]
    · rw [Nat.toDigits_of_base_le (by decide) h]
      have hdiv := ih (n / 16) (by omega)
      unfold hexValue at hdiv ⊢
      rw [List.foldl_append, hdiv]
      simp only [List.foldl_cons, List.foldl_nil,
        hexDigitValue_digitChar (Nat.mod_lt n (by decide : 0 < 16))]
      omega

theorem hexValue_zeros_append (count : Nat) (digits : List Char) :
    hexValue (List.replicate count '0' ++ digits) = hexValue digits := by
  induction count with
  | zero => rfl
  | succ count ih => rw [List.replicate_succ, List.cons_append, ← ih]; rfl

theorem paddedHex_injective (width : Nat) : Function.Injective (paddedHex width) := by
  intro m n h
  have hlists := congrArg String.toList h
  simp only [paddedHex, String.toList_ofList] at hlists
  have hvalues := congrArg hexValue hlists
  rwa [hexValue_zeros_append, hexValue_zeros_append, hexValue_toDigits, hexValue_toDigits] at hvalues

end Text

end CacheLayer
