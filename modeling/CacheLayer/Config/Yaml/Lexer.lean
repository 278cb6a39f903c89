import CacheLayer.Config.Yaml.Scalar

/-!
# Splitting configuration text into tokens

Reads one token after the other until the text ends. Sequences have no place in a configuration and
are refused.

* `Scanner.scanDirective`, `Scanner.scanTag`, `Scanner.scanName` : directives, tags and anchors.
* `Scanner.scanToken` : the token that begins at the next character.
* `tokens` : all tokens of a text.
-/

namespace CacheLayer.Yaml

namespace Scanner

/-! ## Anchors -/

/-- Whether a name of an anchor ends well before `rest`. -/
def nameEnds (rest : List Char) : Bool :=
  gapNext rest || match rest with
    | c :: _ =>
      c = '?' || c = ':' || c = ',' || c = ']' || c = '\x7d' || c = '%' || c = '@' || c = '\x60'
    | [] => true

/-- Reads the name after an anchor's or a reference's mark. -/
def scanName (s : Scanner) (make : String → Token) : Except Fault Scanner := do
  let s ← s.saveKey
  let (name, after) := { s.skip with keyAllowed := false }.span isNameChar
  if name.isEmpty || !nameEnds after.rest then
    after.fail "did not find expected alphabetic or numeric character"
  else return after.emit (make (String.ofList name))

/-! ## Tags -/

/-- Whether `c` may stand in a tag as itself; `verbatim` says that the tag is in angle brackets. -/
def isTagChar (verbatim : Bool) (c : Char) : Bool :=
  isNameChar c || ";/?:@&=+$.!~*'()".toList.contains c ||
    (verbatim && (c = ',' || c = '[' || c = ']'))

/-- Reads `count` bytes that are written by number and go on with a character. -/
def tagBytes : Nat → Scanner → List Char → Except Fault (Scanner × List Char)
  | 0, s, acc => .ok (s, acc)
  | count + 1, s, acc =>
    match s.rest with
    | '%' :: high :: low :: _ =>
      match hexNumber? [high, low] with
      | some n =>
        if n / 64 = 2 then tagBytes count (skipMany 3 s) (acc ++ [Char.ofNat n])
        else s.fail "found an incorrect trailing UTF-8 octet"
      | none => s.fail "did not find URI escaped octet"
    | _ => s.fail "did not find URI escaped octet"

/-- How many bytes a character has whose first byte is `n`. -/
def byteWidth? (n : Nat) : Option Nat :=
  if n < 0x80 then some 1
  else if n / 32 = 6 then some 2
  else if n / 16 = 14 then some 3
  else if n / 8 = 30 then some 4
  else none

/-- Reads a character that is written by the numbers of its bytes; it stands as one character for
each byte. -/
def tagEscape (s : Scanner) : Except Fault (Scanner × List Char) :=
  match s.rest with
  | '%' :: high :: low :: _ =>
    match (hexNumber? [high, low]).bind fun n => (byteWidth? n).map fun width => (n, width) with
    | some (n, width) => tagBytes (width - 1) (skipMany 3 s) [Char.ofNat n]
    | none => s.fail "did not find URI escaped octet"
  | _ => s.fail "did not find URI escaped octet"

/-- Reads the characters of a tag. -/
def tagText (verbatim : Bool) : Nat → Scanner → List Char → Except Fault (Scanner × List Char)
  | 0, s, acc => .ok (s, acc)
  | fuel + 1, s, acc =>
    match s.rest with
    | '%' :: _ => do
      let (s, escaped) ← s.tagEscape
      tagText verbatim fuel s (acc ++ escaped)
    | c :: _ =>
      if isTagChar verbatim c then tagText verbatim fuel s.skip (acc ++ [c]) else .ok (s, acc)
    | [] => .ok (s, acc)

/-- Reads the characters of a tag, of which there has to be one. -/
def tagText1 (s : Scanner) (verbatim : Bool) : Except Fault (Scanner × List Char) := do
  let (after, text) ← tagText verbatim (s.rest.length + 1) s []
  if text.isEmpty then s.fail "did not find expected tag URI" else return (after, text)

/-- Reads what may be a handle: a mark, a name and perhaps a second mark. -/
def tagHandle (s : Scanner) : Except Fault (Scanner × List Char) :=
  match s.rest with
  | '!' :: _ =>
    let (name, after) := s.skip.span isNameChar
    match after.rest with
    | '!' :: _ => .ok (after.skip, '!' :: name ++ ['!'])
    | _ => .ok (after, '!' :: name)
  | _ => s.fail "did not find expected '!'"

/-- Reads the handle and the suffix of a tag. Without a second mark the handle is the first alone,
and a lone mark is a tag without a handle. -/
def tagParts (s : Scanner) : Except Fault (Scanner × List Char × List Char) :=
  match s.rest with
  | '!' :: '<' :: _ => do
    let (after, suffix) ← s.skip.skip.tagText1 true
    match after.rest with
    | '>' :: _ => return (after.skip, [], suffix)
    | _ => after.fail "did not find the expected '>'"
  | _ => do
    let (after, handle) ← s.tagHandle
    if 1 < handle.length && handle.getLast? = some '!' then
      let (after, suffix) ← after.tagText1 false
      return (after, handle, suffix)
    else
      let (after, suffix) ← tagText false (after.rest.length + 1) after (handle.drop 1)
      return if suffix.isEmpty then (after, [], ['!']) else (after, ['!'], suffix)

def scanTag (s : Scanner) : Except Fault Scanner := do
  let s ← s.saveKey
  let (s, handle, suffix) ← { s with keyAllowed := false }.tagParts
  if gapNext s.rest || (s.inFlow && s.rest.head? = some ',') then
    return s.emit (.tag (String.ofList handle) (String.ofList suffix))
  else s.fail "did not find expected whitespace or line break"

/-! ## Directives -/

/-- The most digits of a number of a version. -/
def maxVersionDigits : Nat := 9

/-- Reads a number of a version. -/
def versionNumber (s : Scanner) : Except Fault (Scanner × Nat) :=
  let (digits, after) := s.span Char.isDigit
  if digits.isEmpty then s.fail "did not find expected version number"
  else if maxVersionDigits < digits.length then s.fail "found extremely long version number"
  else .ok (after, digits.foldl (fun n c => n * 10 + (c.toNat - 48)) 0)

/-- Reads the version that a directive gives. -/
def versionDirective (s : Scanner) : Except Fault (Scanner × Token) := do
  let (s, major) ← (s.skipWhile isBlank).versionNumber
  match s.rest with
  | '.' :: _ =>
    let (s, minor) ← s.skip.versionNumber
    return (s, .version major minor)
  | _ => s.fail "did not find expected digit or '.' character"

/-- Reads the handle and the text that a directive declares it to stand for. -/
def handleDirective (s : Scanner) : Except Fault (Scanner × Token) := do
  let (s, handle) ← (s.skipWhile isBlank).tagHandle
  if handle.getLast? ≠ some '!' then s.fail "did not find expected '!'"
  else if !(s.rest.head?.map isBlank).getD false then s.fail "did not find expected whitespace"
  else
    let (s, start) ← (s.skipWhile isBlank).tagText1 true
    if gapNext s.rest then
      return (s, .tagHandle (String.ofList handle) (String.ofList start))
    else s.fail "did not find expected whitespace or line break"

/-- Reads a directive and the rest of its line. -/
def scanDirective (s : Scanner) : Except Fault Scanner := do
  let s ← s.closeAll.dropKey
  let (name, after) := { s.skip with keyAllowed := false }.span isNameChar
  if !gapNext after.rest then after.fail "found unexpected non-alphabetical character"
  else
    let (after, token) ← match String.ofList name with
      | "YAML" => after.versionDirective
      | "TAG" => after.handleDirective
      | _ => after.fail "found unknown directive name"
    let after := (after.skipWhile isBlank).skipComment
    if lineEndNext after.rest then return after.skip.emit token
    else after.fail "did not find expected comment or line break"

/-! ## Keys and values -/

/-- Reads the mark between a key and its value. -/
def scanValue (s : Scanner) : Except Fault Scanner :=
  match s.currentKey with
  | some k =>
    let s := { s with tokens := s.tokens.take k.token ++ Token.key :: s.tokens.drop k.token }
    let s := (s.openAt k.column k.token).setKey none
    .ok (({ s with keyAllowed := false }).skip.emit .value)
  | none =>
    if !s.inFlow && !s.keyAllowed then s.fail "mapping values are not allowed in this context"
    else
      let s := s.openAt s.column s.tokens.length
      .ok (({ s with keyAllowed := !s.inFlow }).skip.emit .value)

/-- Reads the mark before a key. -/
def scanKey (s : Scanner) : Except Fault Scanner :=
  if !s.inFlow && !s.keyAllowed then s.fail "mapping keys are not allowed in this context"
  else do
    let s := s.openAt s.column s.tokens.length
    let s ← s.dropKey
    return ({ s with keyAllowed := !s.inFlow }).skip.emit .key

/-! ## One token -/

/-- Whether `c` is an indicator, which begins no plain text. -/
def isIndicator (c : Char) : Bool :=
  "-?:,[]\x7b\x7d#&*!|>'\"%@\x60".toList.contains c

/-- Whether a plain text begins with the next character. -/
def plainBegins (flow : Bool) : List Char → Bool
  | [] => false
  | c :: rest =>
    if !isIndicator c then !isBlank c && !isBreak c
    else if c = '-' then !gapNext rest
    else !flow && (c = '?' || c = ':') && !gapNext rest

/-- Reads a marker of three characters between documents. -/
def scanMarker (s : Scanner) (t : Token) : Except Fault Scanner := do
  let s ← s.closeAll.dropKey
  return (skipMany 3 { s with keyAllowed := false }).emit t

/-- Reads the token that begins here. -/
def scanToken (s : Scanner) : Except Fault Scanner :=
  if markerNext '-' s.column s.rest then s.scanMarker .documentStart
  else if markerNext '.' s.column s.rest then s.scanMarker .documentEnd
  else match s.rest with
    | [] => .ok s
    | '\x7b' :: _ => do
      let s ← s.saveKey
      return ({ s with keys := none :: s.keys, keyAllowed := true }).skip.emit .flowStart
    | '\x7d' :: _ => do
      let s ← s.dropKey
      let keys := if s.inFlow then s.keys.drop 1 else s.keys
      return ({ s with keys, keyAllowed := false }).skip.emit .flowEnd
    | ',' :: _ => do
      let s ← s.dropKey
      return ({ s with keyAllowed := true }).skip.emit .flowEntry
    | '*' :: _ => s.scanName .reference
    | '&' :: _ => s.scanName .anchor
    | '!' :: _ => s.scanTag
    | '\x27' :: _ => s.scanQuoted singleQuoted
    | '\x22' :: _ => s.scanQuoted doubleQuoted
    | c :: rest =>
      if c = '%' && s.column = 0 then s.scanDirective
      else if c = '?' && (s.inFlow || gapNext rest) then s.scanKey
      else if c = ':' && (s.inFlow || gapNext rest) then s.scanValue
      else if (c = '|' || c = '>') && !s.inFlow then s.scanBlock (c = '>')
      else if plainBegins s.inFlow s.rest then do
        let s ← s.saveKey
        s.scanPlain
      else s.fail "found character that cannot start any token"

/-- Reads tokens until the text ends. -/
def run : Nat → Scanner → Except Fault (List Token)
  | 0, s => s.fail "text too long"
  | fuel + 1, s => do
    let s ← (skipGap (s.rest.length + 1) s).dropStaleKeys
    let s := s.closeTo s.column
    match s.rest with
    | [] => do
      let s ← s.closeAll.dropKey
      return s.tokens
    | _ :: _ => run fuel (← s.scanToken)

end Scanner

def tokens (text : String) : Except Fault (List Token) :=
  let chars := Scanner.unifyBreaks text.toList
  if chars.all Scanner.isAllowed then Scanner.run (chars.length + 2) { rest := chars }
  else .error ⟨0, "control characters are not allowed"⟩

end CacheLayer.Yaml
