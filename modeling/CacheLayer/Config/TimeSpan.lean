import CacheLayer.Text.Blank
import CacheLayer.Text.Debug
import CacheLayer.Timestamps

/-!
# Time spans in words

Reads lengths of time such as `5m`, `1h 30min` or `1.5s`: numbers with units, one after the other.
Sums and products are 64-bit counts; one that does not fit is refused, and so is a fraction that is
no whole number of nanoseconds.

The reader is a machine that takes one character at a time (`TimeSpan.step`) and says at the end
what it has read (`TimeSpan.finish`).
-/

namespace CacheLayer.TimeSpan

/-- Why a text is no time span; offsets count bytes. -/
inductive Fault where
  /-- There is nothing but white space. -/
  | empty
  /-- A span does not begin with a digit. -/
  | numberExpected (offset : Nat)
  /-- A character has no place here. -/
  | invalidCharacter (offset : Nat)
  /-- A number has no unit. -/
  | unitNeeded (number : Nat)
  /-- There is no such unit. -/
  | unknownUnit (unit : String)
  /-- A number does not fit, or is no whole number of nanoseconds. -/
  | overflow
  deriving DecidableEq, Repr

def Fault.message : Fault → String
  | .empty => "value was empty"
  | .numberExpected offset => "expected number at " ++ toString offset
  | .invalidCharacter offset => "invalid character at " ++ toString offset
  | .unitNeeded number =>
    "time unit needed, for example " ++ toString number ++ "sec or " ++ toString number ++ "ms"
  | .unknownUnit unit =>
    "unknown time unit " ++ Text.quoted unit ++ ", supported units: ns, us/µs, ms, sec, min, " ++
      "hours, days, weeks, months, years (and few variations)"
  | .overflow =>
    "number is too large or cannot be represented without a lack of precision " ++
      "(values below 1ns are not supported)"

/-- A unit, as so many nanoseconds or so many seconds. -/
inductive TimeUnit where
  | nanos (count : Nat)
  | seconds (count : Nat)
  deriving DecidableEq, Repr

def units : List (List String × TimeUnit) :=
  [(["nanos", "nsec", "ns"], .nanos 1),
   (["usec", "us", "µs"], .nanos 1000),
   (["millis", "msec", "ms"], .nanos 1000000),
   (["seconds", "second", "secs", "sec", "s"], .seconds 1),
   (["minutes", "minute", "min", "mins", "m"], .seconds 60),
   (["hours", "hour", "hr", "hrs", "h"], .seconds 3600),
   (["days", "day", "d"], .seconds 86400),
   (["weeks", "week", "wk", "wks", "w"], .seconds 604800),
   (["months", "month", "M"], .seconds 2630016),
   (["years", "year", "yr", "yrs", "y"], .seconds 31557600)]

def unit? (name : String) : Option TimeUnit :=
  (units.find? fun u => u.1.contains name).map Prod.snd

/-- `n`, unless it is larger than a 64-bit count. -/
def fit (n : Nat) : Except Fault Nat := if n ≤ maxCount then .ok n else .error .overflow

/-- The fractional digits of a number as a quotient. -/
structure Fraction where
  numerator : Nat
  denominator : Nat
  deriving DecidableEq, Repr

/-- `total` and `seconds` and `nanos` more. -/
def add (total : Duration) (seconds nanos : Nat) : Except Fault Duration := do
  let nanos ← fit (total.subsecond + nanos)
  let carried ← fit (seconds + nanos / Duration.nanosPerSecond)
  let seconds ← fit (total.seconds + carried)
  return .ofSeconds seconds (nanos % Duration.nanosPerSecond)

/-- A fraction of `count`, which has to be whole. -/
def share (f : Fraction) (count : Nat) : Except Fault Nat := do
  let product ← fit (f.numerator * count)
  if product % f.denominator = 0 then return product / f.denominator else throw .overflow

/-- `total` and a number of units more. Fractions are taken of nanoseconds up to minutes and of
seconds from hours on. -/
def addSpan (total : Duration) (whole : Nat) (fraction : Option Fraction) (name : String) :
    Except Fault Duration :=
  match unit? name with
  | none => .error (if name.isEmpty then .unitNeeded whole else .unknownUnit name)
  | some unit => do
    let total ← match unit with
      | .nanos count => do add total 0 (← fit (whole * count))
      | .seconds count => do add total (← fit (whole * count)) 0
    match fraction, unit with
    | none, _ => return total
    | some _, .nanos 1 => throw .overflow
    | some f, .nanos count => add total 0 (← share f count)
    | some f, .seconds count =>
      if count ≤ 60 then add total 0 (← share f (count * Duration.nanosPerSecond))
      else add total (← share f count) 0

/-- Where the reader is. -/
inductive Phase where
  /-- Before the first digit of a span; `start` is where the search for it began. -/
  | gap (start : Nat) (first : Bool)
  /-- In the whole part of a number. -/
  | whole (number : Nat)
  /-- In the fractional part, whose last accepted character ends at `mark`. -/
  | fraction (number : Nat) (fraction : Fraction) (mark : Nat)
  /-- In a unit, whose letters are kept in reverse. -/
  | unit (number : Nat) (fraction : Option Fraction) (letters : List Char)
  deriving DecidableEq, Repr

/-- The phase and the length of the spans that are complete. -/
structure State where
  phase : Phase
  total : Duration
  deriving DecidableEq, Repr

/-- Whether `c` may stand in a unit. -/
def isUnitLetter (c : Char) : Bool := c.isAlpha || c = 'µ'

def digit? (c : Char) : Option Nat := if c.isDigit then some (c.toNat - 48) else none

def spell (letters : List Char) : String := String.ofList letters.reverse

/-- Takes the character that begins at the byte `pos`. -/
def step (s : State) (pos : Nat) (c : Char) : Except Fault State :=
  match s.phase with
  | .gap start first =>
    match digit? c with
    | some d => .ok { s with phase := .whole d }
    | none =>
      if Text.isBlank c then .ok { s with phase := .gap start first }
      else .error (.numberExpected start)
  | .whole n =>
    match digit? c with
    | some d => do
      let n ← fit (n * 10 + d)
      return { s with phase := .whole n }
    | none =>
      if Text.isBlank c then .ok s
      else if isUnitLetter c then .ok { s with phase := .unit n none [c] }
      else if c = '.' then .ok { s with phase := .fraction n ⟨0, 1⟩ pos }
      else .error (.invalidCharacter pos)
  | .fraction n f mark =>
    match digit? c with
    | some d => do
      let denominator ← fit (f.denominator * 10)
      let numerator ← fit (f.numerator * 10 + d)
      return { s with phase := .fraction n ⟨numerator, denominator⟩ (pos + 1) }
    | none =>
      if Text.isBlank c then .ok { s with phase := .fraction n f (pos + c.utf8Size) }
      else if isUnitLetter c ∧ f.denominator ≠ 1 then .ok { s with phase := .unit n (some f) [c] }
      else .error (.invalidCharacter mark)
  | .unit n f letters =>
    match digit? c with
    | some d => do
      let total ← addSpan s.total n f (spell letters)
      return ⟨.whole d, total⟩
    | none =>
      if Text.isBlank c then do
        let total ← addSpan s.total n f (spell letters)
        return ⟨.gap (pos + c.utf8Size) false, total⟩
      else if isUnitLetter c then .ok { s with phase := .unit n f (c :: letters) }
      else .error (.invalidCharacter pos)

/-- What has been read when the text ends. -/
def finish (s : State) : Except Fault Duration :=
  match s.phase with
  | .gap _ first => if first then .error .empty else .ok s.total
  | .whole n => .error (.unitNeeded n)
  | .fraction n f mark =>
    .error (if f.denominator = 1 then .invalidCharacter mark else .unitNeeded n)
  | .unit n f letters => addSpan s.total n f (spell letters)

/-- Takes the characters from the byte `pos` on and ends. -/
def run : State → Nat → List Char → Except Fault Duration
  | s, _, [] => finish s
  | s, pos, c :: cs => do run (← step s pos c) (pos + c.utf8Size) cs

/-- The length of time that a text names; `0` alone needs no unit. -/
def parse (s : String) : Except Fault Duration :=
  if s = "0" then .ok ⟨0⟩ else run ⟨.gap 0 true, ⟨0⟩⟩ 0 s.toList

end CacheLayer.TimeSpan
