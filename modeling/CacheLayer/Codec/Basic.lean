import CacheLayer.Text.Utf8

/-!
# Binary codecs

A codec writes a value as bytes and reads one back from the front of a byte string. Numbers are
little endian and of fixed width, a text or a sequence is preceded by its 64-bit length, an optional
value by a byte, and a variant by its 32-bit number.

* `Codec.encode` may refuse a value; `Codec.decode` says with a `Codec.Fault` why bytes are none.
* `Codec.read` reads a value and ignores the bytes after it.
-/

namespace CacheLayer

/-- Why a value cannot be written or bytes cannot be read. -/
inductive Codec.Fault where
  /-- The bytes end inside a number or before a length. -/
  | endOfInput
  /-- The bytes end inside a text. -/
  | shortText
  /-- The bytes of a text are not text. -/
  | badText (fault : Text.Utf8.Fault)
  /-- The byte of a truth value is neither zero nor one. -/
  | badBool (found : Nat)
  /-- The byte before an optional value is neither zero nor one. -/
  | badOption (found : Nat)
  /-- The bytes of a character are not a character. -/
  | badChar
  /-- There is no variant of this number among `count`. -/
  | badVariant (found count : Nat)
  /-- The value itself refuses. -/
  | refused (reason : String)
  deriving DecidableEq, Repr

def Codec.Fault.message : Codec.Fault → String
  | .endOfInput => "io error: unexpected end of file"
  | .shortText => "io error: "
  | .badText fault => "string is not valid utf8: " ++ fault.message
  | .badBool found =>
    "invalid u8 while decoding bool, expected 0 or 1, found " ++ toString found
  | .badOption found => "tag for enum is not valid, found " ++ toString found
  | .badChar => "char is not valid"
  | .badVariant found count =>
    "invalid value: integer \x60" ++ toString found ++ "\x60, expected variant index 0 <= i < "
      ++ toString count
  | .refused reason => reason

/-- How values of `α` are written as bytes and read back. -/
structure Codec (α : Type u) where
  /-- The bytes of a value. -/
  encode : α → Except Codec.Fault (List UInt8)
  /-- The value at the front of some bytes, with the bytes after it. -/
  decode : List UInt8 → Except Codec.Fault (α × List UInt8)

namespace Codec

variable {α : Type u} {β : Type v}

/-- Reads the value at the front and ignores the bytes after it. -/
def read (c : Codec α) (bytes : List UInt8) : Except Fault α :=
  match c.decode bytes with
  | .ok (a, _) => .ok a
  | .error fault => .error fault

/-- Reading the encoding of a value gives the value back. -/
def Faithful (c : Codec α) : Prop := ∀ a bytes, c.encode a = .ok bytes → c.read bytes = .ok a

/-! ## Numbers -/

/-- The `width` lowest bytes of `n`, lowest first. -/
def littleEndian : Nat → Nat → List UInt8
  | 0, _ => []
  | width + 1, n => UInt8.ofNat n :: littleEndian width (n / 256)

/-- The number at the front of some bytes, written in `width` bytes, lowest first. -/
def readLittleEndian : Nat → List UInt8 → Except Fault (Nat × List UInt8)
  | 0, bytes => .ok (0, bytes)
  | _ + 1, [] => .error .endOfInput
  | width + 1, b :: bytes =>
    match readLittleEndian width bytes with
    | .ok (n, rest) => .ok (b.toNat + 256 * n, rest)
    | .error fault => .error fault

/-- Writes through a view of the values as values of another type. -/
def through (c : Codec β) (view : α → β) (back : β → α) : Codec α where
  encode a := c.encode (view a)
  decode bytes := match c.decode bytes with
    | .ok (b, rest) => .ok (back b, rest)
    | .error fault => .error fault

/-- Numbers in `width` bytes. -/
def word (width : Nat) : Codec Nat where
  encode n := .ok (littleEndian width n)
  decode := readLittleEndian width

def u8 : Codec UInt8 := (word 1).through UInt8.toNat UInt8.ofNat
def u16 : Codec UInt16 := (word 2).through UInt16.toNat UInt16.ofNat
def u32 : Codec UInt32 := (word 4).through UInt32.toNat UInt32.ofNat
def u64 : Codec UInt64 := (word 8).through UInt64.toNat UInt64.ofNat

/-- Signed numbers as their two's complement. -/
def i64 : Codec Int64 := u64.through Int64.toUInt64 UInt64.toInt64

def bool : Codec Bool where
  encode b := u8.encode (if b then 1 else 0)
  decode bytes := match u8.decode bytes with
    | .ok (b, rest) =>
      if b = 0 then .ok (false, rest)
      else if b = 1 then .ok (true, rest)
      else .error (.badBool b.toNat)
    | .error fault => .error fault

/-! ## Text -/

def char : Codec Char where
  encode c := .ok (Text.Utf8.encodeChar c)
  decode
    | [] => .error .endOfInput
    | bytes => match Text.Utf8.nextChar bytes with
      | .ok out => .ok out
      | .error _ => .error .badChar

/-- A text as the number of its bytes and the bytes. -/
def text : Codec String where
  encode s :=
    let bytes := Text.Utf8.encode s
    .ok (littleEndian 8 bytes.length ++ bytes)
  decode bytes := match readLittleEndian 8 bytes with
    | .error fault => .error fault
    | .ok (length, rest) =>
      if rest.length < length then .error .shortText
      else match Text.Utf8.decode (rest.take length) with
        | .ok s => .ok (s, rest.drop length)
        | .error fault => .error (.badText fault)

/-! ## Compounds -/

/-- Writes the elements one after the other. -/
def encodeAll (c : Codec α) : List α → Except Fault (List UInt8)
  | [] => .ok []
  | a :: as => match c.encode a with
    | .error fault => .error fault
    | .ok bytes => match encodeAll c as with
      | .error fault => .error fault
      | .ok rest => .ok (bytes ++ rest)

/-- Reads `count` elements that cost at least a byte each, so that `fuel`, the number of bytes, is
reached only after the bytes have ended. -/
def decodeAll (c : Codec α) : Nat → Nat → List UInt8 → Except Fault (List α × List UInt8)
  | _, 0, bytes => .ok ([], bytes)
  | 0, _ + 1, _ => .error .endOfInput
  | fuel + 1, count + 1, bytes => match c.decode bytes with
    | .error fault => .error fault
    | .ok (a, rest) => match decodeAll c fuel count rest with
      | .error fault => .error fault
      | .ok (as, rest) => .ok (a :: as, rest)

/-- A sequence as its length and its elements. -/
def seq (c : Codec α) : Codec (List α) where
  encode as := match encodeAll c as with
    | .ok bytes => .ok (littleEndian 8 as.length ++ bytes)
    | .error fault => .error fault
  decode bytes := match readLittleEndian 8 bytes with
    | .error fault => .error fault
    | .ok (count, rest) => decodeAll c (rest.length + 1) count rest

/-- Bytes as their number and themselves. -/
def bytes : Codec (List UInt8) := u8.seq

/-- An optional value as a byte and the value. -/
def option (c : Codec α) : Codec (Option α) where
  encode
    | none => .ok [0]
    | some a => match c.encode a with
      | .ok bytes => .ok (1 :: bytes)
      | .error fault => .error fault
  decode
    | [] => .error .endOfInput
    | tag :: rest =>
      if tag = 0 then .ok (none, rest)
      else if tag = 1 then
        match c.decode rest with
        | .ok (a, rest) => .ok (some a, rest)
        | .error fault => .error fault
      else .error (.badOption tag.toNat)

/-- Two values one after the other. -/
def pair (c : Codec α) (d : Codec β) : Codec (α × β) where
  encode p := match c.encode p.1 with
    | .error fault => .error fault
    | .ok first => match d.encode p.2 with
      | .error fault => .error fault
      | .ok second => .ok (first ++ second)
  decode bytes := match c.decode bytes with
    | .error fault => .error fault
    | .ok (a, rest) => match d.decode rest with
      | .error fault => .error fault
      | .ok (b, rest) => .ok ((a, b), rest)

end Codec

end CacheLayer
