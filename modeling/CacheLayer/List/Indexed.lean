import CacheLayer.List.Lazy
import CacheLayer.List.ReadWrite

/-!
# Common access to lists

What lists have in common: some operations are not supported by every list, and one that is not
fails and changes nothing.
-/

namespace CacheLayer

/-- An operation that changes a list. -/
inductive Mutator where
  | set
  | insert
  | push
  | remove
  deriving DecidableEq, Repr

/-- The name of an operation that changes a list. -/
def Mutator.name : Mutator → String
  | .set => "set"
  | .insert => "insert"
  | .push => "push"
  | .remove => "remove"

/-- The error of an operation that a list does not support. -/
def Mutator.unsupported (m : Mutator) : CacheError := .unsupported m.name

/-- Whether a lazy list supports an operation: it supports none. -/
def LazyList.supports (_ : Mutator) : Bool := false

/-- Whether a read/write list supports an operation: it replaces and removes, but shifts nothing. -/
def ReadWriteList.supports : Mutator → Bool
  | .set | .remove => true
  | .insert | .push => false

end CacheLayer
