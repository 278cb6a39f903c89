import CacheLayer.List.ReadWrite
import CacheLayer.Text.Binary64

/-!
# Samples

What caches and lists are tried with: values of several types with their codecs, keys with a hash,
proxies, providers that follow a script, and files that somebody names from outside. No cache and no
list uses any of it.
-/

namespace CacheLayer

/-! ## Values -/

/-- A row of numbers with a name. -/
structure Row where
  id : UInt32
  cells : List Binary64
  tag : Option String
  deriving DecidableEq, Repr

/-- A shape in one of three forms. -/
inductive Shape where
  | empty
  | circle (radius : UInt32)
  | named (name : String) (sides : UInt8)
  deriving DecidableEq, Repr

namespace Codec

/-- A floating-point number as its bits. -/
def binary64 : Codec Binary64 := u64.through Binary64.bits Binary64.mk

def row : Codec Row :=
  (u32.pair (binary64.seq.pair text.option)).through (fun r => (r.id, r.cells, r.tag))
    fun p => ⟨p.1, p.2.1, p.2.2⟩

/-- A text that refuses to be written where it begins with `!ser`, and to be read where it begins
with `!de`. -/
def fragile : Codec String where
  encode s :=
    if "!ser".toList.isPrefixOf s.toList then .error (.refused "unserializable value")
    else text.encode s
  decode bytes := match text.decode bytes with
    | .error fault => .error fault
    | .ok (s, rest) =>
      if "!de".toList.isPrefixOf s.toList then .error (.refused "undecodable value")
      else .ok (s, rest)

/-- A shape as the number of its form and its fields. -/
def shape : Codec Shape where
  encode
    | .empty => (word 4).encode 0
    | .circle radius => ((word 4).pair u32).encode (1, radius)
    | .named name sides => ((word 4).pair (text.pair u8)).encode (2, name, sides)
  decode bytes := match (word 4).decode bytes with
    | .error fault => .error fault
    | .ok (0, rest) => .ok (.empty, rest)
    | .ok (1, rest) => match u32.decode rest with
      | .ok (radius, rest) => .ok (.circle radius, rest)
      | .error fault => .error fault
    | .ok (2, rest) => match (text.pair u8).decode rest with
      | .ok ((name, sides), rest) => .ok (.named name sides, rest)
      | .error fault => .error fault
    | .ok (n, _) => .error (.badVariant n 3)

end Codec

/-- What kind of value a cache stores. -/
inductive PayloadKind where
  | text
  | number
  | bytes
  | row
  | fragile
  deriving DecidableEq, Repr

def PayloadKind.ofName? : String → Option PayloadKind
  | "string" => some .text
  | "u64" => some .number
  | "bytes" => some .bytes
  | "row" => some .row
  | "fragile" => some .fragile
  | _ => none

/-- A value of one of the kinds. -/
inductive Payload where
  | text (s : String)
  | number (n : UInt64)
  | bytes (b : List UInt8)
  | row (r : Row)
  deriving DecidableEq, Repr

namespace Payload

/-- The text of a payload that is one. -/
def asText : Payload → String
  | .text s => s
  | _ => ""

/-- The number of a payload that is one. -/
def asNumber : Payload → UInt64
  | .number n => n
  | _ => 0

/-- The bytes of a payload that has them. -/
def asBytes : Payload → List UInt8
  | .bytes b => b
  | _ => []

/-- The row of a payload that is one. -/
def asRow : Payload → Row
  | .row r => r
  | _ => ⟨0, [], none⟩

end Payload

/-- The codec of the payloads of a kind. -/
def PayloadKind.codec : PayloadKind → Codec Payload
  | .text => Codec.text.through Payload.asText .text
  | .number => Codec.u64.through Payload.asNumber .number
  | .bytes => Codec.bytes.through Payload.asBytes .bytes
  | .row => Codec.row.through Payload.asRow .row
  | .fragile => Codec.fragile.through Payload.asText .text

/-- The bytes that a payload of a kind takes in memory beside what it refers to. -/
def PayloadKind.footprint : PayloadKind → Nat
  | .number => 8
  | .row => 56
  | _ => 24

/-! ## Keys -/

/-- A key of a cache. -/
inductive Key where
  | number (n : Nat)
  | text (s : String)
  deriving DecidableEq, Repr

namespace Key

/-- The order of keys: numbers before texts, numbers by size and texts by code points. -/
def le : Key → Key → Bool
  | number a, number b => a ≤ b
  | text a, text b => a ≤ b
  | number _, text _ => true
  | text _, number _ => false

/-- Takes one byte into a Fowler-Noll-Vo hash of 64 bits. -/
def mixByte (state : UInt64) (b : UInt8) : UInt64 := (state ^^^ b.toUInt64) * 0x100000001b3

/-- The hash of a text: its bytes and a byte that ends it. -/
def textHash (s : String) : UInt64 :=
  (Text.Utf8.encode s ++ [0xff]).foldl mixByte 0xcbf29ce484222325

/-- What the shard of a key is chosen by: a number itself, and the hash of a text. -/
def shardHash : Key → UInt64
  | number n => UInt64.ofNat n
  | text s => textHash s

end Key

/-- The types of a cache: what its keys are and what it stores. -/
structure PairType where
  textKeys : Bool
  values : PayloadKind
  deriving DecidableEq, Repr

/-- The types that a name such as `int/string` tells. -/
def PairType.ofName? (name : String) : Option PairType :=
  match name.splitOn "/" with
  | ["int", values] => (PayloadKind.ofName? values).map fun values => ⟨false, values⟩
  | ["string", values] => (PayloadKind.ofName? values).map fun values => ⟨true, values⟩
  | _ => none

/-! ## Proxies -/

namespace Proxy

/-- Stores text between `<` and `>`, but for text that begins with `!c`. -/
def brackets : Proxy String String where
  convert s :=
    if "!c".toList.isPrefixOf s.toList then .error (.serialization ("cannot convert " ++ s))
    else .ok ("<" ++ s ++ ">")
  restore s :=
    match s.toList with
    | '<' :: inner =>
      if inner.getLast? = some '>' then .ok (String.ofList inner.dropLast)
      else .error (.serialization ("cannot read " ++ s))
    | _ => .error (.serialization ("cannot read " ++ s))
  passThrough := false

/-- Sees elements and stored values as values of other types. -/
def through (p : Proxy V S) (view : V' → V) (back : V → V') (viewStored : S' → S)
    (backStored : S → S') : Proxy V' S' where
  convert v := (p.convert (view v)).map backStored
  restore s := (p.restore (viewStored s)).map back
  passThrough := p.passThrough

end Proxy

/-! ## Providers with a script -/

/-- The outcomes of a key, used one after the other, the last again and again. -/
structure Script (V : Type v) where
  outcomes : List (Except ProviderError V)

/-- The outcome of the request number `n`, counted from zero. -/
def Script.outcome? (s : Script V) (n : Nat) : Option (Except ProviderError V) :=
  s.outcomes[min n (s.outcomes.length - 1)]?

/-- The failure of a key without outcomes. -/
def noScript : ProviderError := ⟨.notFound, "no script", none⟩

/-- Answers each key by its script, and a key without one by the script for all others. -/
def Provider.scripted [DecidableEq K] (scripts : List (K × Script V)) (others : Script V) :
    Provider K V where
  provide asked k :=
    let script := ((scripts.find? fun s => s.1 = k).map Prod.snd).getD others
    match script.outcome? (asked.count k) with
    | some outcome => outcome
    | none => .error noScript

/-! ## Providers of numbered elements -/

/-- What a provider of numbered elements does. -/
structure Numbered where
  /-- What stands before the number of an element. -/
  stem : String
  /-- The number of elements. -/
  length : Nat
  /-- Whether an element also tells how many were produced so far. -/
  versioned : Bool
  /-- The outcomes of some indices, used one after the other. -/
  scripts : List (Nat × Script String)
  /-- How a range differs from the one asked for, where ranges are answered at once: by so many
  elements more and so many fewer. -/
  ranges : Option (Nat × Nat)

namespace Numbered

/-- What a provider of numbered elements remembers: how many elements it produced, and how often
each index with a script was asked for. -/
structure Memory where
  produced : Nat := 0
  asked : List Nat := []

/-- Answers for one index. -/
def answer (n : Numbered) (m : Memory) (index : Nat) : Except ProviderError String × Memory :=
  match n.scripts.find? fun s => s.1 = index with
  | some (_, script) =>
    ((script.outcome? (m.asked.count index)).getD (.error noScript),
      { m with asked := index :: m.asked })
  | none =>
    if n.length ≤ index then (.error ⟨.notFound, "no element " ++ toString index, none⟩, m)
    else
      let produced := m.produced + 1
      (.ok (n.stem ++ toString index ++ if n.versioned then "#" ++ toString produced else ""),
        { m with produced })

/-- Answers for `count` indices from `index` on, up to the first failure. -/
def answers (n : Numbered) (m : Memory) : Nat → Nat → Except ProviderError (List String) × Memory
  | _, 0 => (.ok [], m)
  | index, count + 1 =>
    match n.answer m index with
    | (.error e, m) => (.error e, m)
    | (.ok v, m) =>
      match n.answers m (index + 1) count with
      | (.error e, m) => (.error e, m)
      | (.ok vs, m) => (.ok (v :: vs), m)

/-- The number of elements that a request for `start` up to `stop` is answered with. -/
def rangeLength (start stop : Nat) (more fewer : Nat) : Nat := stop + more - fewer - start

/-- What is remembered after a request. -/
def remember (n : Numbered) (m : Memory) : Request → Memory
  | .single index => (n.answer m index).2
  | .range start stop =>
    match n.ranges with
    | some (more, fewer) => (n.answers m start (rangeLength start stop more fewer)).2
    | none => m

/-- What is remembered after all requests. -/
def memoryAfter (n : Numbered) (requests : List Request) : Memory := requests.foldl n.remember {}

/-- The provider of numbered elements. -/
def provider (n : Numbered) : IndexedProvider String where
  single requests index := (n.answer (n.memoryAfter requests) index).1
  range := n.ranges.map fun (more, fewer) => fun requests start stop =>
    (n.answers (n.memoryAfter requests) start (rangeLength start stop more fewer)).1

end Numbered

/-! ## Files -/

/-- The text of a directory relative to the root. -/
def Path.tidy (directory : String) : String :=
  if Path.isAbsolute directory then directory else Path.text (Path.ofText directory)

namespace FileArea

/-- The number of entries of a directory, if it exists. -/
def entryCount (a : FileArea) (path : Path) : Option Nat :=
  (a.reach path).map fun path =>
    let below (p : Path) : Bool := p.dropLast = path && !p.isEmpty
    a.regular.countP below + a.directories.countP below
      + a.tiers.values.countP fun d => d.parent = path

/-- Where a file lies that is named from a private directory. -/
inductive FilePlace where
  /-- In that directory. -/
  | inside (name : String)
  /-- Elsewhere. -/
  | outside (path : Path)

/-- Where a file lies that is named from a private directory. There is no directory in that one, so
a way out of it begins with `..`. -/
def place? (a : FileArea) (d : TierDirectory) (file : String) : Option FilePlace :=
  match (Path.ofText file).reverse with
  | [] => none
  | name :: rest =>
    if Path.stays name || name = ".." || maxNameBytes < name.utf8ByteSize ||
        Path.isAbsolute file || (Path.ofText file).isImpossible then none
    else match rest.reverse.dropWhile Path.stays with
      | [] => some (.inside name)
      | ".." :: way => (a.walk d.parent way).toOption.map fun done =>
        .outside (done ++ [name])
      | _ => none

/-- Writes a file that is named from a private directory. -/
def writeNamed (a : FileArea) (number : Nat) (file : String) (bytes : List UInt8) :
    Option FileArea := do
  match ← a.place? (← a.tiers.get? number) file with
  | .inside name => a.write number name bytes
  | .outside path =>
    if a.directories.contains path then none
    else return { a with regular := a.regular.filter (· ≠ path) ++ [path] }

/-- Deletes a file that is named from a private directory and is there. -/
def deleteNamed (a : FileArea) (number : Nat) (file : String) : Option FileArea := do
  match ← a.place? (← a.tiers.get? number) file with
  | .inside name => (a.read number name).map fun _ => a.delete number name
  | .outside path =>
    if a.regular.contains path then return { a with regular := a.regular.filter (· ≠ path) }
    else none

end FileArea

end CacheLayer
