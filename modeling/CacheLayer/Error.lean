/-!
# Errors

What can go wrong in a cache, a list, a registry or a configuration, and the one text of each cause.
-/

namespace CacheLayer

/-- How a provider failed. -/
inductive ProviderErrorKind where
  /-- The source cannot produce a value at the moment. -/
  | unavailable
  /-- The source has no value for the key. -/
  | notFound
  /-- Any other failure. -/
  | failed
  deriving DecidableEq, Repr

def ProviderErrorKind.text : ProviderErrorKind → String
  | .unavailable => "unavailable"
  | .notFound => "not found"
  | .failed => "failed"

def ProviderErrorKind.ofName? : String → Option ProviderErrorKind
  | "unavailable" => some .unavailable
  | "not_found" => some .notFound
  | "failed" => some .failed
  | _ => none

/-- A failure of a provider, with the text of an underlying cause where there is one. -/
structure ProviderError where
  kind : ProviderErrorKind
  message : String
  cause : Option String := none
  deriving DecidableEq, Repr

def ProviderError.text (e : ProviderError) : String :=
  "provider " ++ e.kind.text ++ ": " ++ e.message

/-- Why a cache cannot be built. -/
inductive BuildError where
  /-- A bound is zero. -/
  | zeroCapacity
  /-- The number of shards is zero. -/
  | zeroShards
  deriving DecidableEq, Repr

def BuildError.text : BuildError → String
  | .zeroCapacity => "bounded cache capacity cannot be zero"
  | .zeroShards => "shard count cannot be zero"

/-- What an operation of the library fails with. -/
inductive CacheError where
  /-- The collection does not support the operation. -/
  | unsupported (operation : String)
  /-- The list is shorter than the index asks for. -/
  | indexOutOfBounds (index length : Nat)
  /-- The provider failed. -/
  | provider (error : ProviderError)
  /-- A value could not be converted. -/
  | serialization (reason : String)
  /-- The cache of this name holds other types. -/
  | typeMismatch (name : String)
  /-- No cache of this name is configured. -/
  | unknownCache (name : String)
  /-- The cache cannot be built. -/
  | build (error : BuildError)
  /-- A file operation failed. -/
  | io (reason : String)
  /-- The configuration text cannot be read. -/
  | configParse (reason : String)
  /-- A field of the configuration has no sensible value. -/
  | invalidConfigValue (field message : String)
  deriving DecidableEq, Repr

namespace CacheError

def text : CacheError → String
  | unsupported operation => "operation '" ++ operation ++ "' is not supported by this collection"
  | indexOutOfBounds index length =>
    "index " ++ toString index ++ " is out of bounds for a list of length " ++ toString length
  | provider error => error.text
  | serialization reason => "serialization failed: " ++ reason
  | typeMismatch name => "cache '" ++ name ++ "' is registered with different key/value types"
  | unknownCache name => "no configuration found for cache '" ++ name ++ "'"
  | build error => "failed to build cache: " ++ error.text
  | io reason => "I/O error: " ++ reason
  | configParse reason => "failed to parse configuration: " ++ reason
  | invalidConfigValue field message =>
    "invalid configuration value for '" ++ field ++ "': " ++ message

def kind : CacheError → String
  | unsupported _ => "Unsupported"
  | indexOutOfBounds _ _ => "IndexOutOfBounds"
  | provider _ => "Provider"
  | serialization _ => "Serialization"
  | typeMismatch _ => "TypeMismatch"
  | unknownCache _ => "UnknownCache"
  | build _ => "Build"
  | io _ => "Io"
  | configParse _ => "ConfigParse"
  | invalidConfigValue _ _ => "InvalidConfigValue"

/-- The texts of the causes below an error, outermost first. A provider's error stands for itself,
so only its own cause is below it. -/
def causes : CacheError → List String
  | provider error => error.cause.toList
  | build error => [error.text]
  | io reason => [reason]
  | _ => []

end CacheError

end CacheLayer
