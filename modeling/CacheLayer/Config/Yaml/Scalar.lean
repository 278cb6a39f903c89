import CacheLayer.Config.Yaml.Token

/-!
# Scalars of configuration text

Reads the text of a scalar in each of its forms: plain, in single or double quotes, and as a block
below a mark.

* `Joint` : what stands between two runs of text; a single line break counts as a blank, and of
  several the first is dropped, unless it is a line or paragraph separator, which stays.
* `Scanner.scanPlain`, `Scanner.scanQuoted`, `Scanner.scanBlock` : one scalar each.
-/

namespace CacheLayer.Yaml

namespace Scanner

/-! ## Joints -/

/-- What stands between two runs of a scalar's text: blanks on a line, or line breaks. -/
structure Joint where
  blanks : List Char := []
  /-- Whether a line break was passed. -/
  broken : Bool := false
  /-- The first line break, unless a backslash took it back. -/
  lead : Option Char := none
  /-- The line breaks after the first. -/
  more : List Char := []

/-- The text that a joint stands for. -/
def Joint.text (j : Joint) : List Char :=
  if j.broken then
    match j.lead with
    | none => j.more
    | some '\n' => if j.more.isEmpty then [' '] else j.more
    | some c => c :: j.more
  else j.blanks

/-- Passes blanks and line breaks. -/
def skipJoint : Nat → Scanner → Joint → Scanner × Joint
  | 0, s, j => (s, j)
  | fuel + 1, s, j =>
    match s.rest with
    | c :: _ =>
      if isBlank c then
        skipJoint fuel s.skip (if j.broken then j else { j with blanks := j.blanks ++ [c] })
      else if isBreak c then
        skipJoint fuel s.skip
          (if j.broken then { j with more := j.more ++ [c] }
            else { broken := true, lead := some c })
      else (s, j)
    | [] => (s, j)

/-! ## Plain texts -/

/-- Whether a tab stands among the blanks that begin a line left of `indent`. -/
def tabInIndent (indent : Nat) : Nat → Bool → List Char → Bool
  | column, broken, c :: cs =>
    if c = '\t' && broken && column < indent then true
    else if isBlank c then tabInIndent indent (column + 1) broken cs
    else if isBreak c then tabInIndent indent 0 true cs
    else false
  | _, _, [] => false

/-- Whether the next character ends a plain text. -/
def plainEnds (flow : Bool) : List Char → Bool
  | ':' :: rest => gapNext rest
  | c :: _ => flow && (c = ',' || c = '[' || c = ']' || c = '\x7b' || c = '\x7d')
  | [] => true

/-- Whether `c` may not follow a colon inside a plain text of a flow mapping. -/
def isFlowMark (c : Char) : Bool :=
  c = ',' || c = '?' || c = '[' || c = ']' || c = '\x7b' || c = '\x7d'

/-- Reads the characters of a plain text up to a gap or to what ends it. -/
def plainRun : Nat → Scanner → List Char → Except Fault (Scanner × List Char)
  | 0, s, acc => .ok (s, acc)
  | fuel + 1, s, acc =>
    if gapNext s.rest then .ok (s, acc)
    else match s.rest with
      | ':' :: d :: _ =>
        if s.inFlow && isFlowMark d then s.fail "found unexpected ':'"
        else if plainEnds s.inFlow s.rest then .ok (s, acc)
        else plainRun fuel s.skip (acc ++ [':'])
      | c :: _ =>
        if plainEnds s.inFlow s.rest then .ok (s, acc) else plainRun fuel s.skip (acc ++ [c])
      | [] => .ok (s, acc)

/-- Reads the lines of a plain text whose first line begins here. -/
def plainLines (indent : Nat) :
    Nat → Scanner → List Char → List Char → Except Fault (Scanner × List Char)
  | 0, s, _, acc => .ok (s, acc)
  | fuel + 1, s, joint, acc =>
    if anyMarkerNext s.column s.rest || s.rest.head? == some '#' then .ok (s, acc)
    else do
      let (after, run) ← plainRun (s.rest.length + 1) s []
      let acc := if run.isEmpty then acc else acc ++ joint ++ run
      let after := { after with keyAllowed := after.keyAllowed && run.isEmpty }
      match after.rest with
      | c :: _ =>
        if !isBlank c && !isBreak c then return (after, acc)
        else if tabInIndent indent after.column false after.rest then
          after.fail "found a tab character that violates indentation"
        else
          let (next, j) := skipJoint (after.rest.length + 1) after {}
          let next := { next with keyAllowed := j.broken }
          if !next.inFlow && next.column < indent then return (next, acc)
          else plainLines indent fuel next j.text acc
      | [] => return (after, acc)

def scanPlain (s : Scanner) : Except Fault Scanner := do
  let (s, text) ←
    plainLines s.textColumn (s.rest.length + 1) { s with keyAllowed := false } [] []
  return s.emit (.scalar (String.ofList text) .plain)

/-! ## Texts in quotes -/

/-- Reads a text in single quotes after the first of them. -/
def singleQuoted : Nat → Scanner → List Char → Except Fault (Scanner × List Char)
  | 0, s, _ => s.fail "found unexpected end of stream"
  | fuel + 1, s, acc =>
    if anyMarkerNext s.column s.rest then s.fail "found unexpected document indicator"
    else match s.rest with
      | [] => s.fail "found unexpected end of stream"
      | '\x27' :: '\x27' :: _ => singleQuoted fuel s.skip.skip (acc ++ ['\x27'])
      | '\x27' :: _ => .ok (s.skip, acc)
      | c :: _ =>
        if isBlank c || isBreak c then
          let (next, j) := skipJoint (s.rest.length + 1) s {}
          singleQuoted fuel next (acc ++ j.text)
        else singleQuoted fuel s.skip (acc ++ [c])

/-- The character of an escape of one letter. -/
def escape? : Char → Option Char
  | '0' => some '\x00'
  | 'a' => some '\x07'
  | 'b' => some '\x08'
  | 't' => some '\t'
  | '\t' => some '\t'
  | 'n' => some '\n'
  | 'v' => some '\x0b'
  | 'f' => some '\x0c'
  | 'r' => some '\x0d'
  | 'e' => some '\x1b'
  | ' ' => some ' '
  | '\x22' => some '\x22'
  | '/' => some '/'
  | '\x5c' => some '\x5c'
  | 'N' => some '\u0085'
  | '_' => some '\u00a0'
  | 'L' => some '\u2028'
  | 'P' => some '\u2029'
  | _ => none

/-- The number of digits of an escape by number. -/
def escapeDigits? : Char → Option Nat
  | 'x' => some 2
  | 'u' => some 4
  | 'U' => some 8
  | _ => none

/-- The number that digits of base sixteen write. -/
def hexNumber? (cs : List Char) : Option Nat :=
  cs.foldlM (fun n c => (hexDigit? c).map (n * 16 + ·)) 0

/-- The character that the digits of an escape number. -/
def numbered? (count : Nat) (cs : List Char) : Option Char :=
  if (cs.take count).length < count then none
  else (hexNumber? (cs.take count)).bind fun n =>
    if n < 0xd800 ∨ (0xdfff < n ∧ n ≤ 0x10ffff) then some (Char.ofNat n) else none

/-- Reads a text in double quotes after the first of them. -/
def doubleQuoted : Nat → Scanner → List Char → Except Fault (Scanner × List Char)
  | 0, s, _ => s.fail "found unexpected end of stream"
  | fuel + 1, s, acc =>
    if anyMarkerNext s.column s.rest then s.fail "found unexpected document indicator"
    else match s.rest with
      | [] => s.fail "found unexpected end of stream"
      | '\x22' :: _ => .ok (s.skip, acc)
      | '\x5c' :: c :: more =>
        if isBreak c then
          let (next, j) := skipJoint (s.rest.length + 1) s.skip.skip { broken := true }
          doubleQuoted fuel next (acc ++ j.text)
        else match escape? c, escapeDigits? c with
          | some e, _ => doubleQuoted fuel s.skip.skip (acc ++ [e])
          | none, some count =>
            match numbered? count more with
            | some e => doubleQuoted fuel (skipMany (count + 2) s) (acc ++ [e])
            | none => s.fail "found invalid character code"
          | none, none => s.fail "found unknown escape character"
      | c :: _ =>
        if isBlank c || isBreak c then
          let (next, j) := skipJoint (s.rest.length + 1) s {}
          doubleQuoted fuel next (acc ++ j.text)
        else doubleQuoted fuel s.skip (acc ++ [c])

/-- Reads a text in quotes by a reader of what follows the first of them. -/
def scanQuoted (s : Scanner)
    (read : Nat → Scanner → List Char → Except Fault (Scanner × List Char)) :
    Except Fault Scanner := do
  let s ← s.saveKey
  let (s, text) ← read (s.rest.length + 1) s.skip []
  return { s with keyAllowed := false }.emit (.scalar (String.ofList text) .quoted)

/-! ## Blocks of text -/

/-- What a block does with the line breaks at its end. -/
inductive Chomping where
  /-- Keeps the first of them. -/
  | clip
  /-- Keeps none. -/
  | strip
  /-- Keeps all. -/
  | keep
  deriving DecidableEq, Repr

/-- The chomping that a sign stands for. -/
def chomping? : List Char → Option Chomping
  | '+' :: _ => some .keep
  | '-' :: _ => some .strip
  | _ => none

/-- Reads the indentation that the mark of a block gives, if it does. -/
def blockIndent? (s : Scanner) : Except Fault (Option Nat × Scanner) :=
  match s.rest with
  | c :: _ =>
    if c = '0' then s.fail "found an indentation indicator equal to 0"
    else if c.isDigit then .ok (some (c.toNat - 48), s.skip)
    else .ok (none, s)
  | [] => .ok (none, s)

/-- Reads the sign and the indentation after the mark of a block, in either order. -/
def blockMark (s : Scanner) : Except Fault (Chomping × Option Nat × Scanner) :=
  match chomping? s.rest with
  | some chomping => do
    let (indent, s) ← s.skip.blockIndent?
    return (chomping, indent, s)
  | none => do
    let (indent, s) ← s.blockIndent?
    match indent, chomping? s.rest with
    | some _, some chomping => return (chomping, indent, s.skip)
    | _, _ => return (.clip, indent, s)

/-- Passes the indentation before a line of a block and the blank lines before it. Gives the widest
indentation that was passed and the line breaks. There is no bound on the indentation while
`indent` is not known. -/
def blockGap (indent : Option Nat) :
    Nat → Scanner → Nat → List Char → Except Fault (Scanner × Nat × List Char)
  | 0, s, widest, breaks => .ok (s, widest, breaks)
  | fuel + 1, s, widest, breaks =>
    let blanks := (s.rest.takeWhile (· = ' ')).length
    let s := skipMany ((indent.map fun n => min blanks (n - s.column)).getD blanks) s
    let widest := max widest s.column
    match s.rest with
    | c :: _ =>
      if c = '\t' && (indent.map fun n => decide (s.column < n)).getD true then
        s.fail "found a tab character where an indentation space is expected"
      else if isBreak c then blockGap indent fuel s.skip widest (breaks ++ [c])
      else .ok (s, widest, breaks)
    | [] => .ok (s, widest, breaks)

/-- The lines of a block that were read: the text, the line break after it, the breaks after that,
and whether the last line began with a blank. -/
structure BlockLines where
  text : List Char := []
  lead : List Char := []
  more : List Char := []
  blankFirst : Bool := false

/-- The text with the line breaks that come before a line; `blankFirst` says how the line begins. -/
def BlockLines.joined (b : BlockLines) (folded blankFirst : Bool) : List Char :=
  if folded && b.lead = ['\n'] && !b.blankFirst && !blankFirst then
    b.text ++ if b.more.isEmpty then [' '] else b.more
  else b.text ++ b.lead ++ b.more

/-- The text with the line breaks that stay at its end. -/
def BlockLines.chomped (b : BlockLines) : Chomping → List Char
  | .clip => b.text ++ b.lead
  | .strip => b.text
  | .keep => b.text ++ b.lead ++ b.more

/-- Reads the lines of a block at `indent`. -/
def blockLines (folded : Bool) (indent : Nat) :
    Nat → Scanner → BlockLines → Except Fault (Scanner × BlockLines)
  | 0, s, b => .ok (s, b)
  | fuel + 1, s, b =>
    match s.rest with
    | [] => .ok (s, b)
    | c :: _ =>
      if s.column = indent then do
        let (line, after) := s.span (!isBreak ·)
        let (next, _, more) ← blockGap (some indent) (after.rest.length + 1) after.skip 0 []
        blockLines folded indent fuel next
          ⟨b.joined folded (isBlank c) ++ line, after.rest.take 1, more, isBlank c⟩
      else .ok (s, b)

/-- Reads a block after its mark. -/
def scanBlock (s : Scanner) (folded : Bool) : Except Fault Scanner := do
  let s ← s.dropKey
  let (chomping, given, s) ← { s with keyAllowed := true }.skip.blockMark
  let s := (s.skipWhile isBlank).skipComment
  if lineEndNext s.rest then
    let least := s.textColumn
    let given := given.map fun n => least - 1 + n
    let (s, widest, more) ← blockGap given (s.rest.length + 1) s.skip 0 []
    let indent := given.getD (max 1 (max least widest))
    let (s, lines) ← blockLines folded indent (s.rest.length + 1) s { more }
    return s.emit
      (.scalar (String.ofList (lines.chomped chomping)) (if folded then .quoted else .literal))
  else s.fail "did not find expected comment or line break"

end Scanner

end CacheLayer.Yaml
