/-!
# Text as bytes

Encoding of text in bytes and the strict reader beside it, which says where and how bytes fail to be
text: a sequence of one to three bytes that begins no character, or an end inside a character.
-/

namespace CacheLayer.Text.Utf8

/-- Why bytes are not text. -/
inductive Fault where
  /-- The `length` bytes from `start` begin no character. -/
  | invalid (length start : Nat)
  /-- The bytes end inside the character that begins at `start`. -/
  | incomplete (start : Nat)
  deriving DecidableEq, Repr

def Fault.message : Fault → String
  | .invalid length start =>
    "invalid utf-8 sequence of " ++ toString length ++ " bytes from index " ++ toString start
  | .incomplete start => "incomplete utf-8 byte sequence from index " ++ toString start

/-- How many bytes a character takes that begins with the byte `b`; zero where none does. -/
def width (b : Nat) : Nat :=
  if b < 0x80 then 1
  else if b < 0xc2 then 0
  else if b < 0xe0 then 2
  else if b < 0xf0 then 3
  else if b < 0xf5 then 4
  else 0

/-- The bounds of the second byte of a character that begins with the byte `b`. -/
def secondBounds (b : Nat) : Nat × Nat :=
  if b = 0xe0 then (0xa0, 0xbf)
  else if b = 0xed then (0x80, 0x9f)
  else if b = 0xf0 then (0x90, 0xbf)
  else if b = 0xf4 then (0x80, 0x8f)
  else (0x80, 0xbf)

/-- Whether `b` continues a character. -/
def continues (b : Nat) : Bool := 0x80 ≤ b && b ≤ 0xbf

/-- The first character of `bytes` with the bytes after it, or the number of bytes at fault, where
`none` says that the bytes end too early. -/
def nextChar : List UInt8 → Except (Option Nat) (Char × List UInt8)
  | [] => .error none
  | first :: rest =>
    let a := first.toNat
    match width a with
    | 1 => .ok (Char.ofNat a, rest)
    | 2 =>
      match rest with
      | [] => .error none
      | b :: rest =>
        if continues b.toNat then .ok (Char.ofNat ((a - 0xc0) * 64 + (b.toNat - 0x80)), rest)
        else .error (some 1)
    | 3 =>
      match rest with
      | [] => .error none
      | b :: rest =>
        if b.toNat < (secondBounds a).1 || (secondBounds a).2 < b.toNat then .error (some 1)
        else match rest with
          | [] => .error none
          | c :: rest =>
            if continues c.toNat then
              .ok (Char.ofNat (((a - 0xe0) * 64 + (b.toNat - 0x80)) * 64 + (c.toNat - 0x80)), rest)
            else .error (some 2)
    | 4 =>
      match rest with
      | [] => .error none
      | b :: rest =>
        if b.toNat < (secondBounds a).1 || (secondBounds a).2 < b.toNat then .error (some 1)
        else match rest with
          | [] => .error none
          | c :: rest =>
            if !continues c.toNat then .error (some 2)
            else match rest with
              | [] => .error none
              | d :: rest =>
                if continues d.toNat then
                  let high := (a - 0xf0) * 64 + (b.toNat - 0x80)
                  let low := (c.toNat - 0x80) * 64 + (d.toNat - 0x80)
                  .ok (Char.ofNat (high * 4096 + low), rest)
                else .error (some 3)
    | _ => .error (some 1)

/-- Reads characters until the bytes end; `fuel` bounds their number. -/
def readChars : Nat → Nat → List UInt8 → Except Fault (List Char)
  | _, _, [] => .ok []
  | 0, _, _ :: _ => .ok []
  | fuel + 1, start, bytes =>
    match nextChar bytes with
    | .ok (c, rest) =>
      match readChars fuel (start + (bytes.length - rest.length)) rest with
      | .ok cs => .ok (c :: cs)
      | .error fault => .error fault
    | .error (some length) => .error (.invalid length start)
    | .error none => .error (.incomplete start)

def decode (bytes : List UInt8) : Except Fault String :=
  match readChars bytes.length 0 bytes with
  | .ok cs => .ok (String.ofList cs)
  | .error fault => .error fault

def encodeChar (c : Char) : List UInt8 :=
  let n := c.toNat
  let byte (n : Nat) : UInt8 := UInt8.ofNat n
  if n < 0x80 then [byte n]
  else if n < 0x800 then [byte (0xc0 + n / 64), byte (0x80 + n % 64)]
  else if n < 0x10000 then [byte (0xe0 + n / 4096), byte (0x80 + n / 64 % 64), byte (0x80 + n % 64)]
  else [byte (0xf0 + n / 262144), byte (0x80 + n / 4096 % 64), byte (0x80 + n / 64 % 64),
    byte (0x80 + n % 64)]

def encode (s : String) : List UInt8 := s.toList.flatMap encodeChar

end CacheLayer.Text.Utf8
