import CacheLayer.Table
import CacheLayer.Text.Debug

/-!
# The file area

What caches see of the file system: directories and regular files by path below one root, and the
private directories of disk tiers. The name of a private directory ends in letters that nobody
chooses, so it is known by a number here; it exists exactly while that number is bound.

* `FileArea.walk` : where the names of a path lead, and what stands in the way.
* `FileArea.makeAll` : makes a directory, after those above it where they are missing.
* `FileArea.makeTier`, `FileArea.deleteTier` : private directories.
-/

namespace CacheLayer

/-- A path below the root, as the names between its slashes. An empty name and `.` lead nowhere, and
`..` leads back. -/
abbrev Path := List String

namespace Path

/-- Whether a name leads nowhere. -/
def stays (name : String) : Bool := name = "" || name = "."

/-- The path that a text writes. -/
def ofText (s : String) : Path := s.splitOn "/"

/-- The names in reverse without those at the end that lead nowhere. -/
def settled (reversed : Path) : Path := reversed.dropWhile stays

/-- The path without names that lead nowhere at either end. -/
def trimmed (p : Path) : Path := (settled (p.dropWhile stays).reverse).reverse

/-- The text of a path without names that lead nowhere at either end. -/
def text (p : Path) : String := "/".intercalate p.trimmed

/-- The paths above a path given in reverse, nearest first, up to the root, which is left out. -/
def aboveReversed : Path → List Path
  | [] => []
  | name :: rest =>
    let above := aboveReversed rest
    if stays name then above else
      match settled rest with
      | [] => above
      | kept => kept.reverse :: above

/-- A path and the paths above it, nearest first, up to the root, which is left out. Those above
have no names at the end that lead nowhere. -/
def withAbove (p : Path) : List Path :=
  if (settled p.reverse).isEmpty then [] else p :: aboveReversed p.reverse

/-- The path that leads back from a path without detours; above the root it goes on with `..`. -/
def back (p : Path) : Path :=
  if p.getLast?.all (· = "..") then p ++ [".."] else p.dropLast

/-- Whether the text of a directory stands for itself and not for one below another. -/
def isAbsolute (directory : String) : Bool := directory.toList.head? = some '/'

/-- The text of a directory that is given relative to `root`. -/
def below (root directory : String) : String :=
  if isAbsolute directory then directory else root ++ "/" ++ directory

end Path

/-- The most bytes that a name may have. -/
def maxNameBytes : Nat := 255

/-- The most bytes that a path below the root may have. -/
def maxPathBytes : Nat := 4079

/-- How many letters nobody chooses end the name of a private directory. -/
def randomNameBytes : Nat := 6

/-- Whether no file can have the path: it is too long, or there is a zero character in it. -/
def Path.isImpossible (p : Path) : Bool :=
  maxPathBytes < ("/".intercalate p).utf8ByteSize || p.any fun name => name.toList.contains '\x00'

/-- The private directory of a disk tier. -/
structure TierDirectory where
  parent : Path
  /-- The chosen part of its name. -/
  stem : String
  /-- The contents of its files by name. -/
  files : Table String (List UInt8)

/-- Everything below the root. -/
structure FileArea where
  /-- The regular files outside private directories. -/
  regular : List Path
  /-- The directories other than the root and the private ones. -/
  directories : List Path
  /-- The private directories by number. -/
  tiers : Table Nat TierDirectory
  /-- The number that the next private directory gets. -/
  nextTier : Nat
  /-- The files of private directories, by number and name, that cannot be written although the
  directory exists, such as for want of room. -/
  unwritable : Nat → String → Bool := fun _ _ => false

namespace FileArea

/-- An area of regular files alone. -/
def ofFiles (files : List Path) : FileArea where
  regular := (files.map Path.trimmed).eraseDups
  directories := []
  tiers := .empty
  nextTier := 0

instance : Inhabited FileArea := ⟨ofFiles []⟩

/-! ## Directories -/

/-- What keeps a path from leading anywhere. -/
inductive Obstacle where
  /-- A directory on the way does not exist. -/
  | missing
  /-- Something else, such as a regular file on the way. -/
  | refused
  deriving DecidableEq, Repr

/-- The path without detours of the directory to which names lead from `done`. -/
def walk (a : FileArea) (done : Path) : Path → Except Obstacle Path
  | [] => .ok done
  | name :: rest =>
    if Path.stays name then a.walk done rest
    else if name = ".." then a.walk done.back rest
    else if maxNameBytes < name.utf8ByteSize then .error .refused
    else if a.directories.contains (done ++ [name]) then a.walk (done ++ [name]) rest
    else if a.regular.contains (done ++ [name]) then .error .refused
    else .error .missing

/-- The path without detours of a directory that exists. -/
def reach (a : FileArea) (path : Path) : Option Path :=
  if path.isImpossible then none else (a.walk [] path).toOption

/-- Makes the directory of a name in one that exists, unless it is there. -/
def makeNamed (a : FileArea) (done : Path) (name : String) : Except Obstacle FileArea :=
  if maxNameBytes < name.utf8ByteSize || a.regular.contains (done ++ [name]) then .error .refused
  else if a.directories.contains (done ++ [name]) then .ok a
  else .ok { a with directories := a.directories ++ [done ++ [name]] }

/-- Makes one directory, unless it is there. A last name that leads nowhere or back has to be led to
by directories that exist. -/
def make (a : FileArea) (path : Path) : Except Obstacle FileArea :=
  if path.isImpossible then .error .refused
  else match path.reverse.dropWhile (· = "") with
    | [] => .ok a
    | name :: rest => do
      let done ← a.walk [] rest.reverse
      if name = "." || name = ".." then return a else a.makeNamed done name

/-- Makes the first of the paths listed, each of which lies in the next, after those that it misses,
and says whether it exists then; those made before one that cannot be made stay. -/
def makeFirst (a : FileArea) : List Path → Bool × FileArea
  | [] => (true, a)
  | path :: above =>
    match a.make path with
    | .ok a => (true, a)
    | .error .refused => (false, a)
    | .error .missing =>
      match a.makeFirst above with
      | (false, a) => (false, a)
      | (true, a) =>
        match a.make path with
        | .ok a => (true, a)
        | .error _ => (false, a)

/-- Makes a directory and those above it where they are missing, and says whether it exists then. -/
def makeAll (a : FileArea) (path : Path) : Bool × FileArea := a.makeFirst path.withAbove

/-! ## Private directories -/

/-- Makes a private directory in a directory that exists. -/
def makeTier (a : FileArea) (parent : Path) (stem : String) : Option (Nat × FileArea) :=
  if maxNameBytes < stem.utf8ByteSize + randomNameBytes ||
      (parent ++ [stem ++ "".pushn ' ' randomNameBytes]).isImpossible then none
  else (a.reach parent).map fun parent => (a.nextTier,
    { a with
      tiers := a.tiers.insert a.nextTier ⟨parent, stem, .empty⟩
      nextTier := a.nextTier + 1 })

/-- Puts an empty private directory back in its place. -/
def restoreTier (a : FileArea) (number : Nat) (parent : Path) (stem : String) : Option FileArea :=
  if a.tiers.contains number then none
  else (a.reach parent).map fun parent =>
    { a with tiers := a.tiers.insert number ⟨parent, stem, .empty⟩ }

/-- Deletes a private directory with its files. -/
def deleteTier (a : FileArea) (number : Nat) : FileArea := { a with tiers := a.tiers.erase number }

/-- Whether a private directory exists. -/
def hasTier (a : FileArea) (number : Nat) : Bool := a.tiers.contains number

/-- The contents of a file in a private directory. -/
def read (a : FileArea) (number : Nat) (name : String) : Option (List UInt8) :=
  (a.tiers.get? number).bind fun d => d.files.get? name

/-- Writes a file in a private directory, which has to exist. -/
def write (a : FileArea) (number : Nat) (name : String) (bytes : List UInt8) : Option FileArea :=
  if a.unwritable number name then none
  else (a.tiers.get? number).map fun d =>
    { a with tiers := a.tiers.insert number { d with files := d.files.insert name bytes } }

/-- Deletes a file in a private directory, if it is there. -/
def delete (a : FileArea) (number : Nat) (name : String) : FileArea :=
  { a with tiers := a.tiers.modify number fun d => { d with files := d.files.erase name } }

end FileArea

end CacheLayer
