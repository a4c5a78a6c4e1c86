import Mathlib

/-!
Reading encoded data: b64decode of utils.c and the input functions of packmsg.h.
The input is what is left to read, and there is none any more after an error;
the value that is returned with an error is kept as it is in the source. What is left
is counted with 32 bits where it is compared with a length.
-/
namespace Meshlink.Packmsg

abbrev Bytes := List UInt8

section Base64

/-- The table base64_decode, with the characters of both alphabets. -/
def base64Value (c : UInt8) : Option ℕ :=
  if 65 ≤ c ∧ c ≤ 90 then some (c.toNat - 65)
  else if 97 ≤ c ∧ c ≤ 122 then some (c.toNat - 71)
  else if 48 ≤ c ∧ c ≤ 57 then some (c.toNat + 4)
  else if c = 43 ∨ c = 45 then some 62
  else if c = 47 ∨ c = 95 then some 63
  else none

def triplet : List ℕ → ℕ
  | [] => 0
  | v :: rest => v + 64 * triplet rest

def tripletBytes (t n : ℕ) : Bytes := (List.range n).map fun i => UInt8.ofNat (t / 256 ^ i)

/-- Four characters give three bytes; what is left over gives one byte less than
it has characters. -/
def decodeGroups : List ℕ → Bytes
  | a :: b :: c :: d :: rest => tripletBytes (triplet [a, b, c, d]) 3 ++ decodeGroups rest
  | rest => tripletBytes (triplet rest) (rest.length - 1)

/-- b64decode of a text with its own length as the length argument; nothing is
decoded when a character is not in the table. -/
def b64decode (src : Bytes) : Bytes :=
  match (src.take (src.length / 3 * 4)).mapM base64Value with
  | none => []
  | some values => decodeGroups values

end Base64

abbrev Input := Option Bytes

variable (input : Input)

def inputOk : Bool := input.isSome

def done : Bool := input = some []

/-- 0xc1 is never the header of an element. -/
def readHdr : Input → ℕ × Input
  | some (hdr :: rest) => (hdr.toNat, some rest)
  | _ => (0xc1, none)

def littleEndian : Bytes → ℕ
  | [] => 0
  | b :: rest => b.toNat + 256 * littleEndian rest

/-- A value of some bytes, which stays 0 when there are fewer. -/
def readData (n : ℕ) (input : Input) : ℕ × Input :=
  match input with
  | none => (0, none)
  | some bytes =>
    if n ≤ bytes.length % 2 ^ 32 then (littleEndian (bytes.take n), some (bytes.drop n))
    else (0, none)

/-- The two's complement reading of an unsigned value. -/
def signed (bits value : ℕ) : ℤ :=
  if value < 2 ^ (bits - 1) then value else (value : ℤ) - 2 ^ bits

def getBool : Bool × Input :=
  let (hdr, rest) := readHdr input
  if hdr = 0xc2 then (false, rest)
  else if hdr = 0xc3 then (true, rest)
  else (false, none)

def getSigned (bits value : ℕ) (rest : Input) : ℤ × Input :=
  let (raw, rest) := readData value rest
  (signed bits raw, rest)

def getInt32 : ℤ × Input :=
  let (hdr, rest) := readHdr input
  if hdr < 0x80 ∨ 0xe0 ≤ hdr then (signed 8 hdr, rest)
  else if hdr = 0xd0 then
    let (value, rest) := readHdr rest
    (signed 8 value, rest)
  else if hdr = 0xd1 then getSigned 16 2 rest
  else if hdr = 0xd2 then getSigned 32 4 rest
  else (0, none)

def getInt64 : ℤ × Input :=
  let (hdr, rest) := readHdr input
  if hdr < 0x80 ∨ 0xe0 ≤ hdr then (signed 8 hdr, rest)
  else if hdr = 0xd0 then
    let (value, rest) := readHdr rest
    (signed 8 value, rest)
  else if hdr = 0xd1 then getSigned 16 2 rest
  else if hdr = 0xd2 then getSigned 32 4 rest
  else if hdr = 0xd3 then getSigned 64 8 rest
  else (0, none)

def getUint32 : ℕ × Input :=
  let (hdr, rest) := readHdr input
  if hdr < 0x80 then (hdr, rest)
  else if hdr = 0xcc then readHdr rest
  else if hdr = 0xcd then readData 2 rest
  else if hdr = 0xce then readData 4 rest
  else (0, none)

/-- The bytes of a string or of binary data after its length. -/
def takeData (n : ℕ) (input : Input) : Option Bytes × Input :=
  match input with
  | none => (none, none)
  | some bytes =>
    if n ≤ bytes.length % 2 ^ 32 then (some (bytes.take n), some (bytes.drop n)) else (none, none)

def getStrRaw : Option Bytes × Input :=
  let (hdr, rest) := readHdr input
  if hdr / 32 = 5 then takeData (hdr % 32) rest
  else if hdr = 0xd9 then
    let (n, rest) := readData 1 rest
    takeData n rest
  else if hdr = 0xda then
    let (n, rest) := readData 2 rest
    takeData n rest
  else if hdr = 0xdb then
    let (n, rest) := readData 4 rest
    takeData n rest
  else (none, none)

/-- MESHLINK_CONFIG_VERSION, at the start of every configuration file. -/
def configVersion : ℕ := 2

/-- The bytes of a text; every character of a C string is one byte. -/
def textBytes (s : String) : Bytes := s.toList.map fun c => UInt8.ofNat c.toNat

/-- The text of a C string, up to its first NUL byte. -/
def cString (bytes : Bytes) : String :=
  String.ofList ((bytes.takeWhile fun b => b ≠ 0).map fun b => Char.ofNat b.toNat)

def getStrDup : Option String × Input :=
  let (str, rest) := getStrRaw input
  (str.map cString, rest)

def getBinRaw : Option Bytes × Input :=
  let (hdr, rest) := readHdr input
  if hdr = 0xc4 then
    let (n, rest) := readData 1 rest
    takeData n rest
  else if hdr = 0xc5 then
    let (n, rest) := readData 2 rest
    takeData n rest
  else if hdr = 0xc6 then
    let (n, rest) := readData 4 rest
    takeData n rest
  else (none, none)

/-- The type byte of an extension and its data; the type is 0 after an error. -/
def takeExt (n : ℕ) (input : Input) : ℤ × Option Bytes × Input :=
  let (type, rest) := readHdr input
  match takeData n rest with
  | (none, rest) => (0, none, rest)
  | (some data, rest) => (signed 8 type, some data, rest)

def getExtRaw : ℤ × Option Bytes × Input :=
  let (hdr, rest) := readHdr input
  if hdr = 0xc7 then
    let (n, rest) := readData 1 rest
    takeExt n rest
  else if hdr = 0xc8 then
    let (n, rest) := readData 2 rest
    takeExt n rest
  else if hdr = 0xc9 then
    let (n, rest) := readData 4 rest
    takeExt n rest
  else if 0xd4 ≤ hdr ∧ hdr ≤ 0xd8 then takeExt (2 ^ (hdr - 0xd4)) rest
  else (0, none, none)

def getArray : ℕ × Input :=
  let (hdr, rest) := readHdr input
  if hdr / 16 = 9 then (hdr % 16, rest)
  else if hdr = 0xdc then readData 2 rest
  else if hdr = 0xdd then readData 4 rest
  else (0, none)

/-- What follows a header: nothing, some bytes, or a length of some bytes. -/
inductive Skip
  | nothing
  | fixed (n : ℕ)
  | counted (n : ℕ)
  deriving DecidableEq

def skipOf (hdr : ℕ) : Skip :=
  if hdr < 0xa0 then .nothing
  else if hdr < 0xc0 then .fixed (hdr % 32)
  else match hdr with
    | 0xc4 | 0xc7 | 0xd9 => .counted 1
    | 0xc5 | 0xc8 | 0xda => .counted 2
    | 0xc6 | 0xc9 | 0xdb => .counted 4
    | 0xcc | 0xd0 => .fixed 1
    | 0xcd | 0xd1 | 0xd4 | 0xdc | 0xde => .fixed 2
    | 0xd5 => .fixed 3
    | 0xca | 0xce | 0xd2 | 0xdd | 0xdf => .fixed 4
    | 0xd6 => .fixed 5
    | 0xcb | 0xcf | 0xd3 => .fixed 8
    | 0xd7 => .fixed 9
    | 0xd8 => .fixed 17
    | _ => .nothing

def skipElement : Input :=
  let (hdr, rest) := readHdr input
  match skipOf hdr with
  | .nothing => rest
  | .fixed n => (takeData n rest).2
  | .counted n =>
    let (size, rest) := readData n rest
    (takeData (if 0xc7 ≤ hdr ∧ hdr ≤ 0xc9 then (size + 1) % 2 ^ 32 else size) rest).2

end Meshlink.Packmsg
