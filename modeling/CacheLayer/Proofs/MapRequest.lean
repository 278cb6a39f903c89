/-!
# Requests to a map

What can be asked of a cache as of any map, and what it replies. Values are generic, so that a cache
of shared objects can be compared with a plain map of what is in them.
-/

namespace CacheLayer

universe u v w

inductive MapRequest (K : Type u) (α : Type v) where
  | insert (k : K) (value : α)
  | remove (k : K)
  | get (k : K)
  | contains (k : K)
  | keys
  | size

inductive MapReply (K : Type u) (α : Type v) where
  | done
  | truth (b : Bool)
  | value (found : Option α)
  | keys (listed : List K)
  | count (n : Nat)

/-- What happens to a map that forgets with time; the clock only moves forward. -/
inductive MapTurn (K : Type u) (α : Type v) where
  | wait (time : Nat)
  | request (r : MapRequest K α)
  | purgeExpired
  | close

variable {K : Type u} {α : Type v} {β : Type w}

def MapRequest.map (f : α → β) : MapRequest K α → MapRequest K β
  | insert k value => .insert k (f value)
  | remove k => .remove k
  | get k => .get k
  | contains k => .contains k
  | keys => .keys
  | size => .size

def MapReply.map (f : α → β) : MapReply K α → MapReply K β
  | done => .done
  | truth b => .truth b
  | value found => .value (found.map f)
  | keys listed => .keys listed
  | count n => .count n

/-- The replies are equal, but for the order in which keys are listed. -/
def MapReply.Agrees : MapReply K α → MapReply K α → Prop
  | keys listed, keys listed' => listed.Perm listed'
  | reply, reply' => reply = reply'

namespace MapReply.Agrees

variable {reply reply' reply'' : MapReply K α}

theorem symm (h : reply.Agrees reply') : reply'.Agrees reply := by
  cases reply with
  | keys listed =>
    cases reply' with
    | keys listed' => exact List.Perm.symm h
    | _ => cases h
  | _ => cases h; rfl

theorem trans (h : reply.Agrees reply') (h' : reply'.Agrees reply'') : reply.Agrees reply'' := by
  cases reply with
  | keys listed =>
    cases reply' with
    | keys listed' =>
      cases reply'' with
      | keys listed'' => exact List.Perm.trans h h'
      | _ => cases h'
    | _ => cases h
  | _ => cases h; exact h'

end MapReply.Agrees

end CacheLayer
