/-!
# Tokens of configuration text

The tokens that the YAML text of a configuration is split into, and the state of the splitting.
Nesting by indentation becomes tokens of its own: `blockStart` and `blockEnd` stand around the
entries of a block mapping, and `key` stands before a text that a `value` token turned out to make
a key.

* `Scanner` : the text that is left, the tokens found, the open mappings and the possible keys.
* `Scanner.openAt`, `Scanner.closeTo` : block mappings begin and end by their columns.
* `Scanner.saveKey`, `Scanner.dropKey`, `Scanner.dropStaleKeys` : where a key may have begun.
-/

namespace CacheLayer.Yaml

/-- Why a text is no configuration text. -/
structure Fault where
  line : Nat
  reason : String
  deriving DecidableEq, Repr

def Fault.message (f : Fault) : String := f.reason ++ " at line " ++ toString (f.line + 1)

/-- How a scalar is written, as far as its meaning hangs on it. -/
inductive Style where
  | plain
  /-- In quotes of either kind, or as a block whose lines are folded. -/
  | quoted
  /-- As a block whose line breaks are kept. -/
  | literal
  deriving DecidableEq, Repr

/-- A token. -/
inductive Token where
  | version (major minor : Nat)
  /-- A declaration that tags with this handle begin with this text. -/
  | tagHandle (handle start : String)
  | documentStart
  | documentEnd
  | blockStart
  | blockEnd
  | flowStart
  | flowEnd
  | flowEntry
  | key
  | value
  | anchor (name : String)
  | reference (name : String)
  | tag (handle suffix : String)
  | scalar (text : String) (style : Style)
  deriving DecidableEq, Repr

/-- A place where a key may have begun. -/
structure KeyMark where
  /-- Nothing but a key can stand here. -/
  required : Bool
  /-- How many tokens stand before it. -/
  token : Nat
  line : Nat
  column : Nat
  /-- How many bytes stand before it. -/
  offset : Nat
  deriving DecidableEq, Repr

/-- The most bytes between the beginning of a key and its mark. -/
def maxKeyBytes : Nat := 1024

/-- A text that is being split into tokens. -/
structure Scanner where
  rest : List Char
  line : Nat := 0
  column : Nat := 0
  offset : Nat := 0
  tokens : List Token := []
  /-- The columns of the open block mappings, innermost first. -/
  indents : List Nat := []
  /-- The possible keys, one for each open flow mapping and one below them, innermost first. -/
  keys : List (Option KeyMark) := [none]
  /-- Whether a key may begin here. -/
  keyAllowed : Bool := true
  deriving Repr

namespace Scanner

/-! ## Characters -/

def isBlank (c : Char) : Bool := c = ' ' || c = '\t'

def isBreak (c : Char) : Bool := c = '\n' || c = '\u2028' || c = '\u2029'

/-- Whether a blank, a line break or the end comes next. -/
def gapNext : List Char → Bool
  | [] => true
  | c :: _ => isBlank c || isBreak c

/-- Whether a line break or the end comes next. -/
def lineEndNext : List Char → Bool
  | [] => true
  | c :: _ => isBreak c

/-- Whether `c` may stand in a text at all. -/
def isAllowed (c : Char) : Bool :=
  let n := c.toNat
  n = 0x09 || n = 0x0a || n = 0x0d || (0x20 ≤ n && n ≤ 0x7e) || n = 0x85 ||
    (0xa0 ≤ n && n ≤ 0xfffd) || 0x10000 ≤ n

/-- Writes every line break as the same character, but for the line and the paragraph separator,
which stay. -/
def unifyBreaks : List Char → List Char
  | '\x0d' :: '\n' :: cs => '\n' :: unifyBreaks cs
  | c :: cs => (if c = '\x0d' || c = '\x85' then '\n' else c) :: unifyBreaks cs
  | [] => []

/-- Whether `c` may stand in the name of an anchor, a handle or a directive. -/
def isNameChar (c : Char) : Bool := c.isAlphanum || c = '_' || c = '-'

def hexDigit? (c : Char) : Option Nat :=
  if c.isDigit then some (c.toNat - 48)
  else if 'a' ≤ c ∧ c ≤ 'f' then some (c.toNat - 87)
  else if 'A' ≤ c ∧ c ≤ 'F' then some (c.toNat - 55)
  else none

/-- Whether a document marker of three characters `c` comes next at the start of a line. -/
def markerNext (c : Char) (column : Nat) : List Char → Bool
  | a :: b :: d :: rest => column = 0 && a = c && b = c && d = c && gapNext rest
  | _ => false

/-- Whether either document marker comes next. -/
def anyMarkerNext (column : Nat) (rest : List Char) : Bool :=
  markerNext '-' column rest || markerNext '.' column rest

/-! ## Moving -/

def fail {α : Type} (s : Scanner) (reason : String) : Except Fault α := .error ⟨s.line, reason⟩

def skip (s : Scanner) : Scanner :=
  match s.rest with
  | [] => s
  | c :: rest =>
    let s := { s with rest, offset := s.offset + c.utf8Size }
    if isBreak c then { s with line := s.line + 1, column := 0 }
    else { s with column := s.column + 1 }

def skipMany : Nat → Scanner → Scanner
  | 0, s => s
  | n + 1, s => skipMany n s.skip

/-- The characters that come next and meet `p`, and the text after them. -/
def span (p : Char → Bool) (s : Scanner) : List Char × Scanner :=
  let run := s.rest.takeWhile p
  (run, skipMany run.length s)

/-- Passes the characters that come next and meet `p`. -/
def skipWhile (p : Char → Bool) (s : Scanner) : Scanner := (s.span p).2

/-- How many flow mappings are open. -/
def flowDepth (s : Scanner) : Nat := s.keys.length - 1

def inFlow (s : Scanner) : Bool := 0 < s.flowDepth

/-- The least column of the lines of a text inside the innermost block mapping. -/
def textColumn (s : Scanner) : Nat :=
  match s.indents with
  | [] => 0
  | indent :: _ => indent + 1

def skipComment (s : Scanner) : Scanner :=
  if s.rest.head? = some '#' then s.skipWhile (!isBreak ·) else s

/-- Passes a byte order mark at the start of a line. -/
def skipMark (s : Scanner) : Scanner :=
  if s.column = 0 && s.rest.head? = some '\ufeff' then s.skip else s

/-- Passes blanks, comments and line breaks; a tab may not stand where a key may begin. -/
def skipGap : Nat → Scanner → Scanner
  | 0, s => s
  | fuel + 1, s =>
    let s := s.skipMark
    let s := s.skipWhile fun c => c = ' ' || (c = '\t' && (s.inFlow || !s.keyAllowed))
    let s := s.skipComment
    match s.rest with
    | c :: _ =>
      if isBreak c then skipGap fuel { s.skip with keyAllowed := s.keyAllowed || !s.inFlow } else s
    | [] => s

/-! ## Tokens and keys -/

def emit (s : Scanner) (t : Token) : Scanner := { s with tokens := s.tokens ++ [t] }

/-- Closes the block mappings that begin right of `column`. -/
def closeTo (s : Scanner) (column : Nat) : Scanner :=
  if s.inFlow then s
  else
    let closed := s.indents.takeWhile (column < ·)
    { s with
      indents := s.indents.drop closed.length
      tokens := s.tokens ++ closed.map fun _ => Token.blockEnd }

def closeAll (s : Scanner) : Scanner :=
  if s.inFlow then s
  else { s with indents := [], tokens := s.tokens ++ s.indents.map fun _ => Token.blockEnd }

/-- Opens a block mapping at `column`, unless one is open there, before the token number `place`. -/
def openAt (s : Scanner) (column place : Nat) : Scanner :=
  let deeper := match s.indents with
    | [] => true
    | indent :: _ => indent < column
  if s.inFlow || !deeper then s
  else
    { s with
      indents := column :: s.indents
      tokens := s.tokens.take place ++ .blockStart :: s.tokens.drop place }

def currentKey (s : Scanner) : Option KeyMark := s.keys.head?.getD none

def setKey (s : Scanner) (k : Option KeyMark) : Scanner := { s with keys := k :: s.keys.drop 1 }

/-- Gives up the innermost possible key. -/
def dropKey (s : Scanner) : Except Fault Scanner :=
  match s.currentKey with
  | some k => if k.required then s.fail "could not find expected ':'" else .ok (s.setKey none)
  | none => .ok s

/-- Notes that a key may begin here. -/
def saveKey (s : Scanner) : Except Fault Scanner :=
  if s.keyAllowed then do
    let s ← s.dropKey
    let required := !s.inFlow && s.indents.head? == some s.column
    return s.setKey (some ⟨required, s.tokens.length, s.line, s.column, s.offset⟩)
  else .ok s

/-- Gives up the keys that would not end on the line they began on or would be too long. -/
def dropStaleKeys (s : Scanner) : Except Fault Scanner :=
  let stale (k : KeyMark) : Bool := k.line < s.line || k.offset + maxKeyBytes < s.offset
  if s.keys.any fun k => (k.map fun k => stale k && k.required).getD false then
    s.fail "could not find expected ':'"
  else .ok { s with keys := s.keys.map fun k => k.filter fun k => !stale k }

end Scanner

end CacheLayer.Yaml
