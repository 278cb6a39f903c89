import CacheLayer.Config.Yaml.Lexer

/-!
# The tree of a configuration text

Builds from tokens the tree of mappings and texts. A stream holds at most one document.

* `Node` : the tree, in which a reference stands as a number.
* `Anchors` : which node a number means. An anchor gets as its number how many names were known
  before it, so a name that is given anew may come to share its number with a name after it; of
  several nodes with a number the one that begins last is meant, wherever the reference stands.
* `Document.resolve` : the node that is meant.
-/

namespace CacheLayer.Yaml

/-- A node of the tree. -/
inductive Node where
  | scalar (text : String) (style : Style) (tag : Option String)
  | mapping (pairs : List (Node × Node))
  | reference (number : Nat)
  deriving Repr, Inhabited

def Node.empty : Node := .scalar "" .plain none

/-! ## Anchors -/

/-- The anchors of the part of a text that was read. -/
structure Anchors where
  /-- The number of each name. -/
  names : List (String × Nat) := []
  /-- The numbers of the anchored nodes in the order in which the nodes begin. -/
  begun : List Nat := []
  /-- The anchored nodes that have ended, with their places in that order. -/
  ended : List (Nat × Node) := []

namespace Anchors

/-- Numbers an anchored node that begins here. -/
def start (a : Anchors) (name : String) : Anchors :=
  { a with
    names := (name, a.names.length) :: a.names.filter fun n => n.1 != name
    begun := a.begun ++ [a.names.length] }

/-- Keeps the node that began at a place. -/
def finish (a : Anchors) (place : Nat) (node : Node) : Anchors :=
  { a with ended := (place, node) :: a.ended }

/-- The number that a name has here. -/
def number? (a : Anchors) (name : String) : Option Nat :=
  (a.names.find? fun n => n.1 = name).map Prod.snd

/-- The node that a number means. -/
def node? (a : Anchors) (number : Nat) : Option Node :=
  (a.begun.zipIdx.reverse.find? fun b => b.1 = number).bind fun b =>
    (a.ended.find? fun e => e.1 = b.2).map Prod.snd

end Anchors

/-- A tree with the anchored nodes in it. -/
structure Document where
  root : Node
  anchors : Anchors

/-- The node that is meant by a node, which may be a reference. -/
def Document.resolve (d : Document) : Node → Node
  | .reference number => (d.anchors.node? number).getD .empty
  | node => node

namespace Node

/-- What a reader of tokens gives: a result, the tokens after it and the anchors known by then. -/
structure Parsed (α : Type) where
  result : α
  rest : List Token
  anchors : Anchors

def fail {α : Type} (reason : String) : Except Fault α := .error ⟨0, reason⟩

/-! ## Tags -/

/-- The texts that the handles of tags stand for where nothing else is declared. -/
def commonHandles : List (String × String) := [("!", "!"), ("!!", "tag:yaml.org,2002:")]

/-- The text of a tag. -/
def tagOf (handles : List (String × String)) (handle suffix : String) : Except Fault String :=
  if handle.isEmpty then .ok suffix
  else match handles.find? fun h => h.1 = handle with
    | some h => .ok (h.2 ++ suffix)
    | none => fail "found undefined tag handle"

/-- The anchor and the tag that a node begins with, in either order. -/
def properties (handles : List (String × String)) :
    List Token → Except Fault (Option String × Option String × List Token)
  | .anchor name :: .tag handle suffix :: rest => do
    return (some name, some (← tagOf handles handle suffix), rest)
  | .tag handle suffix :: .anchor name :: rest => do
    return (some name, some (← tagOf handles handle suffix), rest)
  | .anchor name :: rest => .ok (some name, none, rest)
  | .tag handle suffix :: rest => do return (none, some (← tagOf handles handle suffix), rest)
  | tokens => .ok (none, none, tokens)

/-! ## Nodes -/

/-- Whether the next token leaves no room for a node in a block mapping. -/
def blockGap : List Token → Bool
  | .key :: _ | .value :: _ | .blockEnd :: _ => true
  | _ => false

/-- Whether the next token leaves no room for a node in a flow mapping. -/
def flowGap : List Token → Bool
  | .value :: _ | .flowEntry :: _ | .flowEnd :: _ => true
  | _ => false

mutual

def parse (handles : List (String × String)) :
    Nat → List Token → Anchors → Except Fault (Parsed Node)
  | 0, _, _ => fail "text too deep"
  | _ + 1, .reference name :: rest, anchors =>
    match anchors.number? name with
    | some number => .ok ⟨.reference number, rest, anchors⟩
    | none => fail "unknown anchor"
  | fuel + 1, tokens, anchors => do
    let (anchor, tag, rest) ← properties handles tokens
    match anchor with
    | none => parseContent handles fuel rest anchors tag tag.isSome
    | some name =>
      let content ← parseContent handles fuel rest (anchors.start name) tag true
      return { content with
        anchors := content.anchors.finish anchors.begun.length content.result }

/-- Reads the content of a node; one that bears an anchor or a tag may be empty. A tag of one mark
means nothing on a text. -/
def parseContent (handles : List (String × String)) :
    Nat → List Token → Anchors → Option String → Bool → Except Fault (Parsed Node)
  | 0, _, _, _, _ => fail "text too deep"
  | fuel + 1, tokens, anchors, tag, mayBeEmpty =>
    match tokens with
    | .scalar text style :: rest =>
      .ok ⟨.scalar text style (tag.filter (· != "!")), rest, anchors⟩
    | .flowStart :: rest => do
      let pairs ← parseFlow handles fuel rest anchors true
      return { result := .mapping pairs.result, rest := pairs.rest, anchors := pairs.anchors }
    | .blockStart :: rest => do
      let pairs ← parseBlock handles fuel rest anchors
      return { result := .mapping pairs.result, rest := pairs.rest, anchors := pairs.anchors }
    | tokens =>
      if mayBeEmpty then .ok ⟨.scalar "" .plain tag, tokens, anchors⟩
      else fail "did not find expected node content"

/-- Reads the entries of a block mapping and its end. -/
def parseBlock (handles : List (String × String)) :
    Nat → List Token → Anchors → Except Fault (Parsed (List (Node × Node)))
  | 0, _, _ => fail "text too deep"
  | _ + 1, .blockEnd :: rest, anchors => .ok ⟨[], rest, anchors⟩
  | fuel + 1, .key :: rest, anchors => do
    let key ←
      if blockGap rest then pure ⟨empty, rest, anchors⟩ else parse handles fuel rest anchors
    let value ← match key.rest with
      | .value :: rest =>
        if blockGap rest then pure ⟨empty, rest, key.anchors⟩
        else parse handles fuel rest key.anchors
      | rest => pure ⟨empty, rest, key.anchors⟩
    let others ← parseBlock handles fuel value.rest value.anchors
    return { others with result := (key.result, value.result) :: others.result }
  | _, _, _ => fail "did not find expected key"

/-- Reads the entries of a flow mapping and its end; `first` says that none came before. -/
def parseFlow (handles : List (String × String)) :
    Nat → List Token → Anchors → Bool → Except Fault (Parsed (List (Node × Node)))
  | 0, _, _, _ => fail "text too deep"
  | _ + 1, .flowEnd :: rest, anchors, _ => .ok ⟨[], rest, anchors⟩
  | fuel + 1, tokens, anchors, first => do
    let tokens ← match first, tokens with
      | true, tokens => pure tokens
      | false, .flowEntry :: rest => pure rest
      | false, _ => fail "did not find expected ',' or '\x7d'"
    match tokens with
    | .flowEnd :: rest => return ⟨[], rest, anchors⟩
    | .key :: rest =>
      let key ←
        if flowGap rest then pure ⟨empty, rest, anchors⟩ else parse handles fuel rest anchors
      let value ← match key.rest with
        | .value :: rest =>
          if flowGap rest && rest.head? != some .value then pure ⟨empty, rest, key.anchors⟩
          else parse handles fuel rest key.anchors
        | rest => pure ⟨empty, rest, key.anchors⟩
      let others ← parseFlow handles fuel value.rest value.anchors false
      return { others with result := (key.result, value.result) :: others.result }
    | tokens =>
      let key ← parse handles fuel tokens anchors
      let others ← parseFlow handles fuel key.rest key.anchors false
      return { others with result := (key.result, empty) :: others.result }

end

end Node

namespace Document

open Node (Parsed fail)

/-- Reads the directives before a document: the declared handles and the tokens after them. -/
def directives : List Token → Bool → List (String × String) →
    Except Fault (List (String × String) × List Token)
  | .version major minor :: rest, versioned, handles =>
    if versioned then fail "found duplicate %YAML directive"
    else if major = 1 ∧ (minor = 1 ∨ minor = 2) then directives rest true handles
    else fail "found incompatible YAML document"
  | .tagHandle handle start :: rest, versioned, handles =>
    if handles.any fun h => h.1 = handle then fail "found duplicate %TAG directive"
    else directives rest versioned ((handle, start) :: handles)
  | tokens, _, handles => .ok (handles, tokens)

/-- Whether the next token leaves no room for the root of a document. -/
def rootGap : List Token → Bool
  | [] | .version _ _ :: _ | .tagHandle _ _ :: _ | .documentStart :: _ | .documentEnd :: _ => true
  | _ => false

/-- Drops the markers that end documents. -/
def skipEnds : List Token → List Token
  | .documentEnd :: rest => skipEnds rest
  | tokens => tokens

/-- The only document of a stream, if there is one. -/
def ofTokens? (tokens : List Token) : Except Fault (Option Document) := do
  if tokens.isEmpty then return none
  let fuel := 4 * tokens.length + 4
  let (declared, rest) ← directives tokens false []
  let handles := declared ++ Node.commonHandles
  let root ← match rest with
    | .documentStart :: rest =>
      if rootGap rest then pure ⟨.empty, rest, {}⟩ else Node.parse handles fuel rest {}
    | _ =>
      if rest.length < tokens.length then fail "did not find expected <document start>"
      else Node.parse handles fuel rest {}
  match skipEnds root.rest with
  | [] => return some ⟨root.result, root.anchors⟩
  | _ => fail "more than one document"

/-- The only document of a text, if there is one. -/
def ofText? (text : String) : Except Fault (Option Document) := do
  ofTokens? (← tokens text)

end Document

end CacheLayer.Yaml
