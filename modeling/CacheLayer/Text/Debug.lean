import CacheLayer.Duration
import CacheLayer.Text.Glyphless

/-!
# Diagnostic texts

How values read in diagnostic texts: quoted strings, records of named fields, optional values and
durations.
-/

namespace CacheLayer.Text

/-- The digits of `n` in base sixteen, in lower case. -/
def hex (n : Nat) : String := String.ofList (Nat.toDigits 16 n)

/-- The digits of `n` in base sixteen, with zeros in front up to `width` of them. -/
def paddedHex (width n : Nat) : String :=
  let digits := Nat.toDigits 16 n
  String.ofList (List.replicate (width - digits.length) '0' ++ digits)

/-- One character of a quoted text: the usual escapes, and the number of a character that has no
glyph of its own. -/
def quotedChar (c : Char) : String :=
  if c = '\x00' then "\\0"
  else if c = '\t' then "\\t"
  else if c = '\n' then "\\n"
  else if c = '\x0d' then "\\r"
  else if c = '\x22' then "\\\""
  else if c = '\x5c' then "\\\\"
  else if isGlyphless c then "\\u\x7b" ++ hex c.toNat ++ "\x7d"
  else c.toString

def quoted (s : String) : String := "\"" ++ String.join (s.toList.map quotedChar) ++ "\""

/-- A name with named fields; `more` says that fields were left out. -/
def record (name : String) (fields : List (String × String)) (more : Bool) : String :=
  let shown := fields.map (fun f => f.1 ++ ": " ++ f.2) ++ if more then [".."] else []
  if shown.isEmpty then name else name ++ " \x7b " ++ ", ".intercalate shown ++ " \x7d"

def optional (show? : α → String) : Option α → String
  | some a => "Some(" ++ show? a ++ ")"
  | none => "None"

def listed (items : List String) : String := "[" ++ ", ".intercalate items ++ "]"

/-- Drops the zeros at the end of a run of digits. -/
def dropTrailingZeros (digits : List Char) : List Char :=
  (digits.reverse.dropWhile (· = '0')).reverse

/-- `whole` and a fraction of `places` digits, of which no zero at the end is written. -/
def decimal (whole fraction places : Nat) : String :=
  let digits := Nat.toDigits 10 fraction
  let kept := dropTrailingZeros (List.replicate (places - digits.length) '0' ++ digits)
  if kept.isEmpty then toString whole else toString whole ++ "." ++ String.ofList kept

/-- A duration in the largest of seconds, milli-, micro- and nanoseconds that it fills. -/
def duration (d : Duration) : String :=
  if Duration.nanosPerSecond ≤ d.nanos then decimal d.seconds d.subsecond 9 ++ "s"
  else if 1000000 ≤ d.nanos then decimal (d.nanos / 1000000) (d.nanos % 1000000) 6 ++ "ms"
  else if 1000 ≤ d.nanos then decimal (d.nanos / 1000) (d.nanos % 1000) 3 ++ "µs"
  else toString d.nanos ++ "ns"

end CacheLayer.Text
