import Meshlink.RingMemory

/-!
The ring buffers of utcp.c that hold unacknowledged and out-of-order data.
Sizes and offsets are natural numbers; the memory behind a buffer is a total
function of which the first `size` cells belong to the buffer. An allocation
is an input: whether it succeeds, and what the new memory holds. The result
`none` stands for a failed assertion or a call of abort().
-/
namespace Meshlink.UtcpBuffer

open RingMemory

/-- The outcome of a call of malloc() or realloc(). -/
structure Alloc where
  ok : Bool
  fresh : ℕ → UInt8

structure Buffer where
  data : ℕ → UInt8
  offset : ℕ
  used : ℕ
  size : ℕ
  maxsize : ℕ
  external : Bool

def defaultSndbufsize : ℕ := 0
def defaultMaxsndbufsize : ℕ := 131072
def defaultRcvbufsize : ℕ := 0
def defaultMaxrcvbufsize : ℕ := 131072
def uint32Max : ℕ := 4294967295

def Buffer.empty : Buffer := ⟨fun _ => 0, 0, 0, 0, 0, false⟩

variable (buf : Buffer)

def bufferWraps : Bool := decide (buf.size - buf.offset < buf.used)

/-- Old cells survive a reallocation, cells past the old size hold anything. -/
def reallocData (a : Alloc) : ℕ → UInt8 := fun i =>
  if i < buf.size then buf.data i else a.fresh i

def bufferResize (newsize : ℕ) (a : Alloc) : Option (Bool × Buffer) :=
  if buf.external then none
  else if newsize = 0 then some (true, { buf with size := 0, offset := 0 })
  else if !a.ok then some (false, buf)
  else if bufferWraps buf then
    let tailsize := buf.size - buf.offset
    let newoffset := newsize - tailsize
    let newdata := reallocData buf a
    some (true, { buf with
      data := blit newdata newoffset (window newdata buf.offset tailsize)
      offset := newoffset
      size := newsize })
  else some (true, { buf with data := reallocData buf a, size := newsize })

/-- The loop `do newsize *= 2; while(newsize < required)`. -/
def doubleUntil (required : ℕ) : ℕ → ℕ → ℕ
  | 0, newsize => 2 * newsize
  | fuel + 1, newsize =>
      if 2 * newsize < required then doubleUntil required fuel (2 * newsize) else 2 * newsize

def grownSize (required : ℕ) : ℕ :=
  min (doubleUntil required required (if buf.size = 0 then 4096 else buf.size)) buf.maxsize

/-- The cell of logical offset `offset`, as every buffer function computes it. -/
def realOffset (offset : ℕ) : ℕ :=
  if buf.size - buf.offset ≤ offset then buf.offset + offset - buf.size
  else buf.offset + offset

def bufferWrite (offset : ℕ) (data : List UInt8) : Buffer :=
  let start := realOffset buf offset
  let room := buf.size - start
  { buf with
    data :=
      if room < data.length then blit (blit buf.data start (data.take room)) 0 (data.drop room)
      else blit buf.data start data
    used := max buf.used (offset + data.length) }

/-- The part of buffer_put_at after the data has been cut to the maximum. -/
def bufferStore (offset : ℕ) (data : List UInt8) (a : Alloc) : Option (Int × Buffer) :=
  if buf.size < offset + data.length then
    match bufferResize buf (grownSize buf (offset + data.length)) a with
    | none => none
    | some (false, _) => some (-1, buf)
    | some (true, grown) => some (data.length, bufferWrite grown offset data)
  else some (data.length, bufferWrite buf offset data)

def bufferPutAt (offset : ℕ) (data : List UInt8) (a : Alloc) : Option (Int × Buffer) :=
  if buf.maxsize < offset + data.length then
    if buf.maxsize ≤ offset then some (0, buf)
    else bufferStore buf offset (data.take (buf.maxsize - offset)) a
  else bufferStore buf offset data a

def bufferPut (data : List UInt8) (a : Alloc) : Option (Int × Buffer) :=
  bufferPutAt buf buf.used data a

/-- The bytes buffer_copy writes to its destination. -/
def bufferCopy (offset len : ℕ) : List UInt8 :=
  if buf.used ≤ offset then []
  else
    let len := min len (buf.used - offset)
    let start := realOffset buf offset
    let room := buf.size - start
    if room < len then window buf.data start room ++ window buf.data 0 (len - room)
    else window buf.data start len

def bufferDiscard (len : ℕ) : Buffer :=
  let len := min len buf.used
  { buf with
    offset :=
      if buf.used = len then 0
      else if buf.size - buf.offset ≤ len then buf.offset + len - buf.size
      else buf.offset + len
    used := buf.used - len }

def bufferClear : Buffer := { buf with used := 0, offset := 0 }

def bufferSetSize (minsize maxsize : ℕ) (a : Alloc) : Option (Bool × Buffer) :=
  let buf := { buf with maxsize := max maxsize minsize }
  if minsize ≤ buf.size then some (true, buf) else bufferResize buf minsize a

def bufferTransfer (newdata : ℕ → UInt8) (newsize : ℕ) : Buffer :=
  let tailsize := buf.size - buf.offset
  { buf with
    data :=
      if bufferWraps buf then
        blit (blit newdata 0 (window buf.data buf.offset tailsize)) tailsize
          (window buf.data 0 (buf.used - tailsize))
      else blit newdata 0 (window buf.data buf.offset buf.used)
    offset := 0
    size := newsize }

def setBufferStorage (storage : Option (ℕ → UInt8)) (size : ℕ) (a : Alloc) : Option Buffer :=
  let size := min size uint32Max
  let buf := { buf with maxsize := size }
  match storage with
  | some mem =>
      if buf.external then none
      else if size < buf.used then some buf
      else some { bufferTransfer buf mem size with external := true }
  | none =>
      if buf.external then
        let minsize := if buf.used ≤ defaultSndbufsize then defaultSndbufsize else buf.used
        if minsize = 0 then some { buf with size := 0, external := false }
        else if !a.ok then none
        else some { bufferTransfer buf a.fresh minsize with external := false }
      else if bufferWraps buf then some buf
      else
        let minsize := max defaultSndbufsize (buf.offset + buf.used)
        if minsize = 0 then some { buf with size := 0 }
        else if !a.ok then some buf
        else some { buf with data := reallocData buf a, size := minsize }

def bufferFree : ℕ := buf.maxsize - buf.used

namespace Buffer

/-- The byte at logical offset `i`, counted from the front of the buffer. -/
def get (b : Buffer) (i : ℕ) : UInt8 := b.data (slot b.size b.offset i)

def contents (b : Buffer) : List UInt8 := (List.range b.used).map b.get

/-- What every reachable buffer satisfies. -/
structure Wf (b : Buffer) : Prop where
  used_le : b.used ≤ b.size
  offset_lt : b.offset < b.size ∨ b.offset = 0
  empty_offset : b.used = 0 → b.offset = 0
  external_fits : b.external = true → b.maxsize ≤ b.size

end Buffer

end Meshlink.UtcpBuffer
