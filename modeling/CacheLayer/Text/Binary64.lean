/-!
# Numbers of 64-bit binary floating point

`Binary64` is the bit pattern of a floating-point number. `Binary64.ofRatio` rounds a quotient to
the nearest number, ties to the even one, and `Binary64.text` writes a number with the fewest digits
that read back as it.
-/

namespace CacheLayer

/-- A 64-bit floating-point number by its bits: a sign, eleven of exponent, 52 of significand. -/
structure Binary64 where
  bits : UInt64
  deriving DecidableEq, Repr, Inhabited

namespace Binary64

/-- The quotient `n / d` rounded to the nearest whole number, a half to the even one. -/
def roundDiv (n d : Nat) : Nat :=
  let q := n / d
  let r := n % d
  if 2 * r < d then q
  else if d < 2 * r then q + 1
  else if q % 2 = 0 then q else q + 1

/-- The least significand of a number in the normal range. -/
def leastNormal : Nat := 1 <<< 52

/-- `n / d` times `2 ^ s` as a quotient of whole numbers. -/
def scaled (n d : Nat) (s : Int) : Nat × Nat :=
  if 0 ≤ s then (n <<< s.toNat, d) else (n, d <<< (-s).toNat)

/-- The number nearest to `n / d`, for a quotient that is zero or within the normal range. -/
def ofRatio (n d : Nat) : Binary64 :=
  if n = 0 then ⟨0⟩
  else
    let guess : Int := 52 + Nat.log2 d - Nat.log2 n
    let first := scaled n d guess
    let shift := if first.1 / first.2 < leastNormal then guess + 1 else guess
    let final := scaled n d shift
    let significand := roundDiv final.1 final.2
    ⟨UInt64.ofNat ((1075 - shift).toNat * leastNormal + (significand - leastNormal))⟩

/-! ## The shortest text -/

/-- The significand and the exponent of two of a finite number without its sign. -/
def parts (x : Binary64) : Nat × Int :=
  let bits : Nat := x.bits.toNat
  let exponent : Nat := bits / leastNormal % 2048
  let fraction : Nat := bits % leastNormal
  if exponent = 0 then (fraction, -1074) else (fraction + leastNormal, (exponent : Int) - 1075)

/-- The least `j ≤ fuel` with `d ≤ n * 10 ^ j`. -/
def decimalShift (n d : Nat) : Nat → Nat → Nat
  | 0, j => j
  | fuel + 1, j => if d ≤ n then j else decimalShift (n * 10) d fuel (j + 1)

/-- The exponent of ten of the first digit of `n / d`, which is positive. -/
def leadingExponent (n d : Nat) : Int :=
  if d ≤ n then ((Nat.toDigits 10 (n / d)).length : Int) - 1 else -(decimalShift n d 400 0 : Int)

/-- A decimal number `digits * 10 ^ exponent`. -/
structure Digits where
  digits : Nat
  exponent : Int
  deriving DecidableEq, Repr

/-- The number of `count` digits nearest to the number among those that read back as it. Bounds and
number are in quarters of its last place. -/
def nearestWith (value low high : Nat) (closed : Bool) (q : Int) (count : Nat) : Option Digits :=
  let unit := scaled 1 1 (q - 2)
  let exponent := leadingExponent (value * unit.1) unit.2 - count + 1
  let ten :=
    if 0 ≤ exponent then (Nat.pow 10 exponent.toNat, 1) else (1, Nat.pow 10 (-exponent).toNat)
  let point (n : Nat) : Nat := n * unit.1 * ten.2
  let grid : Nat := ten.1 * unit.2
  let below := point value / grid
  let fits (d : Nat) : Bool :=
    if closed then point low ≤ d * grid && d * grid ≤ point high
    else point low < d * grid && d * grid < point high
  match fits below, fits (below + 1) with
  | true, true =>
    if 2 * (point value % grid) ≤ grid then some ⟨below, exponent⟩ else some ⟨below + 1, exponent⟩
  | true, false => some ⟨below, exponent⟩
  | false, true => some ⟨below + 1, exponent⟩
  | false, false => none

/-- The fewest digits that read back as the number, which is positive. -/
def shortest (x : Binary64) : Digits :=
  let (m, q) := x.parts
  let low := if m = leastNormal ∧ q ≠ -1074 then 4 * m - 1 else 4 * m - 2
  let tried := (List.range 17).findSome? fun i =>
    nearestWith (4 * m) low (4 * m + 2) (m % 2 = 0) q (i + 1)
  tried.getD ⟨0, 0⟩

/-- The text of a number that is not negative: positional from `10 ^ -4` up to `10 ^ 16`, with at
least one digit after the point, and with an exponent of ten elsewhere. -/
def text (x : Binary64) : String :=
  if x.bits = 0 then "0.0"
  else
    let short := x.shortest
    let digits := (Nat.toDigits 10 short.digits).reverse.dropWhile (· = '0') |>.reverse
    let first := short.exponent + (Nat.toDigits 10 short.digits).length - 1
    if -4 ≤ first ∧ first < 16 then
      if first < 0 then
        "0." ++ String.ofList (List.replicate (-first - 1).toNat '0' ++ digits)
      else
        let whole := digits.take (first.toNat + 1)
        let zeros := List.replicate (first.toNat + 1 - digits.length) '0'
        let rest := digits.drop (first.toNat + 1)
        String.ofList (whole ++ zeros) ++ "." ++ if rest.isEmpty then "0" else String.ofList rest
    else
      let rest := digits.drop 1
      String.ofList (digits.take 1) ++ (if rest.isEmpty then "" else "." ++ String.ofList rest) ++
        "e" ++ toString first

end Binary64

end CacheLayer
