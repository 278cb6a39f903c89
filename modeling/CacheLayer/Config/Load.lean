import CacheLayer.Config.Raw
import CacheLayer.Config.Yaml.Node

/-!
# Configurations from text

Reads the fields of a configuration from the tree of its text. A field that is unknown, given twice
or of the wrong form makes the text unreadable; a cache declared twice counts as declared last.
-/

namespace CacheLayer

open Yaml (Document Node)

namespace RawConfig

/-- A text that holds no configuration. -/
def unreadable {α : Type} (reason : String) : Except CacheError α := .error (.configParse reason)

/-- Whether a plain text stands for nothing. -/
def isNull (text : String) : Bool :=
  text.isEmpty || text = "~" || text = "null" || text = "Null" || text = "NULL"

/-- The tag of what stands for nothing. -/
def nullTag : String := "tag:yaml.org,2002:null"

/-- The tag of whole numbers. -/
def intTag : String := "tag:yaml.org,2002:int"

/-- Whether a scalar stands for nothing. One with a tag does so only by the tag for it, which
nothing else may bear. -/
def isAbsent (text : String) (style : Yaml.Style) (tag : Option String) : Except CacheError Bool :=
  if style ≠ .plain then .ok false
  else match tag with
    | none => .ok (isNull text)
    | some tag =>
      if tag ≠ nullTag then .ok false
      else if isNull text && !text.isEmpty then .ok true
      else unreadable "invalid value: expected null"

/-- A text field, which is absent where nothing is given. -/
def textField (d : Document) (node : Node) : Except CacheError (Option String) :=
  match d.resolve node with
  | .scalar text style tag => do return if ← isAbsent text style tag then none else some text
  | _ => unreadable "invalid type: map, expected a string"

/-- The value of a digit of a base up to sixteen. -/
def digit? (base : Nat) (c : Char) : Option Nat :=
  (Yaml.Scanner.hexDigit? c).filter (· < base)

/-- The number that the digits of a base write, if it is a 64-bit count. -/
def number? (base : Nat) (digits : List Char) : Option Nat :=
  if digits.isEmpty then none
  else (digits.foldlM (fun n c => (digit? base c).map (n * base + ·)) 0).filter (· ≤ maxCount)

/-- The count that a plain text writes in base ten, sixteen, eight or two, perhaps after a plus. -/
def count? (text : String) : Option Nat :=
  let unsigned := match text.toList with
    | '+' :: rest => rest
    | chars => chars
  match unsigned with
  | '0' :: 'x' :: digits => number? 16 digits
  | '0' :: 'o' :: digits => number? 8 digits
  | '0' :: 'b' :: digits => number? 2 digits
  | '0' :: _ :: _ => none
  | digits => number? 10 digits

/-- A count field, which is absent where nothing is given. -/
def countField (d : Document) (node : Node) : Except CacheError (Option Nat) :=
  match d.resolve node with
  | .scalar text style tag => do
    if ← isAbsent text style tag then return none
    else if style = .plain || (style = .literal && tag = some intTag) then
      match count? text with
      | some n => return some n
      | none => unreadable "invalid value, expected a count"
    else unreadable "invalid type: string, expected a count"
  | _ => unreadable "invalid type: map, expected a count"

/-- The entries of a mapping by the texts of their keys. A plain text with nothing in it is an empty
mapping. -/
def entries (d : Document) (node : Node) : Except CacheError (List (String × Node)) :=
  match d.resolve node with
  | .mapping pairs => pairs.mapM fun p => match d.resolve p.1 with
    | .scalar text _ _ => .ok (text, p.2)
    | _ => unreadable "invalid type: map, expected a string key"
  | .scalar text style _ =>
    if style = .plain && text.isEmpty then .ok [] else unreadable "invalid type: expected a map"
  | .reference _ => unreadable "invalid type: expected a map"

def cacheField (d : Document) (raw : RawCache) (name : String) (node : Node) :
    Except CacheError RawCache :=
  match name with
  | "kind" => do return { raw with kind := ← textField d node }
  | "heap_size_bytes" => do return { raw with heapSizeBytes := ← countField d node }
  | "max_entries_in_memory" => do return { raw with maxEntriesInMemory := ← countField d node }
  | "disk_size_bytes" => do return { raw with diskSizeBytes := ← countField d node }
  | "max_entries_on_disk" => do return { raw with maxEntriesOnDisk := ← countField d node }
  | "idle_timeout" => do return { raw with idleTimeout := ← textField d node }
  | "live_timeout" => do return { raw with liveTimeout := ← textField d node }
  | "eviction_policy" => do return { raw with evictionPolicy := ← textField d node }
  | "persistence" => do return { raw with persistence := ← textField d node }
  | "disk_directory" => do return { raw with diskDirectory := ← textField d node }
  | "soft_capacity" => do return { raw with softCapacity := ← countField d node }
  | "shards" => do return { raw with shards := ← countField d node }
  | _ => unreadable ("unknown field " ++ name)

/-- Refuses a field that is given twice. -/
def distinct (fields : List (String × Node)) : Except CacheError Unit :=
  if (fields.map Prod.fst).Nodup then .ok () else unreadable "duplicate field"

/-- Reads the fields of a cache. -/
def cacheOf (d : Document) (node : Node) : Except CacheError RawCache := do
  let fields ← entries d node
  distinct fields
  fields.foldlM (fun raw f => cacheField d raw f.1 f.2) {}

/-- Reads the declared caches; a later declaration takes the place of one of the same name. -/
def cachesOf (d : Document) (node : Node) : Except CacheError (List (String × RawCache)) := do
  let declared ← (← entries d node).mapM fun e => do return (e.1, ← cacheOf d e.2)
  return declared.foldl (fun kept e => kept.filter (fun k => k.1 != e.1) ++ [e]) []

def registryField (d : Document) (raw : RawConfig) (name : String) (node : Node) :
    Except CacheError RawConfig :=
  match name with
  | "default_disk_directory" => do return { raw with defaultDiskDirectory := ← textField d node }
  | "caches" => do return { raw with caches := ← cachesOf d node }
  | _ => unreadable ("unknown field " ++ name)

/-- Reads the fields of a registry from a text; an empty one gives none. -/
def ofText (text : String) : Except CacheError RawConfig :=
  match Document.ofText? text with
  | .error fault => unreadable fault.message
  | .ok none => .ok {}
  | .ok (some d) => do
    let fields ← entries d d.root
    distinct fields
    fields.foldlM (fun raw f => registryField d raw f.1 f.2) {}

end RawConfig

/-- The options of a registry that a text declares. -/
def RegistryConfig.ofText (text : String) : Except CacheError RegistryConfig := do
  (← RawConfig.ofText text).check

end CacheLayer
