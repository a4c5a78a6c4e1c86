import Meshlink.Packmsg

/-!
The encoding functions of PackMessage. An output is a buffer with some room left; a
write that does not fit makes it invalid, and it stays invalid. Each element has
its bytes, and adding the element is one write of these, whatever the number of
writes the code makes for it.
-/
namespace Meshlink.PackmsgOutput

open Packmsg (Bytes textBytes)

variable (data : Bytes) (value : ℤ)

/-- The bytes written so far and the room left, or nothing after an error. -/
abbrev Output := Option (Bytes × ℕ)

section Writing

def write : Output → Output
  | none => none
  | some (written, room) =>
    if data.length ≤ room then some (written ++ data, room - data.length) else none

def writeHdr (hdr : UInt8) (out : Output) : Output := write [hdr] out

def writeData (out : Output) : Output := write data out

theorem write_write (a b : Bytes) (out : Output) : write b (write a out) = write (a ++ b) out := by
  cases out with
  | none => rfl
  | some o =>
    obtain ⟨written, room⟩ := o
    by_cases ha : a.length ≤ room
    · by_cases hb : b.length ≤ room - a.length
      · have hab : (a ++ b).length ≤ room := by
          rw [List.length_append]
          omega
        simp only [write, if_pos ha, if_pos hb, if_pos hab, List.append_assoc]
        rw [List.length_append, Nat.sub_sub]
      · have hab : ¬ (a ++ b).length ≤ room := by
          rw [List.length_append]
          omega
        simp only [write, if_pos ha, if_neg hb, if_neg hab]
    · have hab : ¬ (a ++ b).length ≤ room := by
        rw [List.length_append]
        omega
      simp only [write, if_neg ha, if_neg hab]

/-- What an output holds that started with some room. -/
theorem write_start (room : ℕ) : write data (some ([], room)) =
      if data.length ≤ room then some (data, room - data.length) else none := rfl

end Writing

section Integers

/-- The low bytes of a value, the lowest first. -/
def leBytes : ℕ → ℕ → Bytes
  | 0, _ => []
  | n + 1, value => UInt8.ofNat value :: leBytes n (value / 256)

/-- The two's complement bytes of a value. -/
def intBytes (n : ℕ) (value : ℤ) : Bytes := leBytes n (value % 2 ^ (8 * n)).toNat

/-- A value that some bits can hold as a signed integer. -/
def Fits (bits : ℕ) (value : ℤ) : Prop := -2 ^ (bits - 1) ≤ value ∧ value < 2 ^ (bits - 1)

instance (bits : ℕ) (value : ℤ) : Decidable (Fits bits value) := by
  unfold Fits
  infer_instance

def int8Element : Bytes :=
  if -32 ≤ value then intBytes 1 value else 0xd0 :: intBytes 1 value

def int16Element : Bytes :=
  if Fits 8 value then int8Element value else 0xd1 :: intBytes 2 value

def int32Element : Bytes :=
  if Fits 16 value then int16Element value else 0xd2 :: intBytes 4 value

def int64Element : Bytes :=
  if Fits 32 value then int32Element value else 0xd3 :: intBytes 8 value

def uint8Element (value : ℕ) : Bytes :=
  if value < 0x80 then leBytes 1 value else 0xcc :: leBytes 1 value

def uint16Element (value : ℕ) : Bytes :=
  if value < 2 ^ 8 then uint8Element value else 0xcd :: leBytes 2 value

def uint32Element (value : ℕ) : Bytes :=
  if value < 2 ^ 16 then uint16Element value else 0xce :: leBytes 4 value

def addInt32 (out : Output) : Output := write (int32Element value) out

def addInt64 (out : Output) : Output := write (int64Element value) out

def addUint32 (value : ℕ) (out : Output) : Output := write (uint32Element value) out

def addBool (value : Bool) (out : Output) : Output := writeHdr (if value then 0xc3 else 0xc2) out

end Integers

section Sequences

/-- The header of a string with some length. -/
def strHeader (n : ℕ) : Bytes :=
  if n < 32 then [UInt8.ofNat (0xa0 + n)]
  else if n ≤ 0xff then 0xd9 :: leBytes 1 n
  else if n ≤ 0xffff then 0xda :: leBytes 2 n
  else 0xdb :: leBytes 4 n

def binHeader (n : ℕ) : Bytes :=
  if n ≤ 0xff then 0xc4 :: leBytes 1 n
  else if n ≤ 0xffff then 0xc5 :: leBytes 2 n
  else 0xc6 :: leBytes 4 n

/-- Data of one, two, four, eight or sixteen bytes has a header of its own. -/
def extHeader (type : ℤ) (n : ℕ) : Bytes :=
  if n = 16 then 0xd8 :: intBytes 1 type
  else if n = 8 then 0xd7 :: intBytes 1 type
  else if n = 4 then 0xd6 :: intBytes 1 type
  else if n = 2 then 0xd5 :: intBytes 1 type
  else if n = 1 then 0xd4 :: intBytes 1 type
  else if n ≤ 0xff then 0xc7 :: (leBytes 1 n ++ intBytes 1 type)
  else if n ≤ 0xffff then 0xc8 :: (leBytes 2 n ++ intBytes 1 type)
  else 0xc9 :: (leBytes 4 n ++ intBytes 1 type)

def arrayHeader (count : ℕ) : Bytes :=
  if count ≤ 0xf then [UInt8.ofNat (0x90 + count)]
  else if count ≤ 0xffff then 0xdc :: leBytes 2 count
  else 0xdd :: leBytes 4 count

def strElement (s : String) : Bytes := strHeader s.length ++ textBytes s

def binElement : Bytes := binHeader data.length ++ data

def extElement (type : ℤ) (data : Bytes) : Bytes := extHeader type data.length ++ data

/-- packmsg_add_str: a text whose length needs more than 32 bits is refused. -/
def addStr (s : String) (out : Output) : Output :=
  if s.length ≤ 0xffffffff then writeData (textBytes s) (write (strHeader s.length) out) else none

def addBin (out : Output) : Output := writeData data (write (binHeader data.length) out)

def addExt (type : ℤ) (data : Bytes) (out : Output) : Output :=
  writeData data (write (extHeader type data.length) out)

def addArray (count : ℕ) (out : Output) : Output := write (arrayHeader count) out

theorem addStr_eq (s : String) (hs : s.length ≤ 0xffffffff) (out : Output) :
    addStr s out = write (strElement s) out := by
  rw [addStr, if_pos hs]
  exact write_write _ _ out

theorem addBin_eq (out : Output) : addBin data out = write (binElement data) out :=
  write_write _ _ out

theorem addExt_eq (type : ℤ) (data : Bytes) (out : Output) :
    addExt type data out = write (extElement type data) out :=
  write_write _ _ out

theorem length_le_strElement (s : String) : s.length ≤ (strElement s).length := by
  simp only [strElement, textBytes, List.length_append, List.length_map, String.length_toList]
  omega

end Sequences

end Meshlink.PackmsgOutput
