import Meshlink.Packmsg
import Meshlink.Systems

/-!
All the functions of packmsg.h that read an element. Each of them looks at the header
and then takes what follows it in one of a few ways. An error is kept, and comes with a
null value, except that an integer of one byte that is cut off gives the mark for a
missing header, and that a cut off number with a fraction is whatever the variable for
it held before.
-/
namespace Meshlink.PackmsgGetters

open Packmsg Systems

section Getters

inductive Kind
  | nil | bool
  | int8 | int16 | int32 | int64
  | uint8 | uint16 | uint32 | uint64
  | float | double
  | map | array
  | str | bin | ext
  deriving DecidableEq

/-- What a call returns; data is none for a null pointer, with a length of zero. -/
inductive Value
  | nothing
  | bool (value : Bool)
  | int (value : ℤ)
  | real (bits : ℕ)
  | data (bytes : Option Bytes)
  | ext (type : ℤ) (bytes : Option Bytes)
  deriving DecidableEq

/-- How the value of an element is found once its header is known. -/
inductive Follow
  /-- The header has it. -/
  | header (value : ℕ)
  /-- A byte that is read like a header. -/
  | byte
  /-- A number of some bytes. -/
  | number (n : ℕ)
  /-- Some bytes, or as many as a number of some bytes says. -/
  | data (n : ℕ)
  | counted (n : ℕ)
  /-- The same after a byte for the type. -/
  | ext (n : ℕ)
  | countedExt (n : ℕ)
  deriving DecidableEq

/-- The branches of the functions for signed integers, for unsigned ones and for the
headers of maps and arrays, with the headers for more bytes that each one knows. -/
def signedFollow (hdr : ℕ) (sizes : List (ℕ × ℕ)) : Option Follow :=
  if hdr < 0x80 ∨ 0xe0 ≤ hdr then some (.header hdr)
  else if hdr = 0xd0 then some .byte
  else (sizes.lookup hdr).map .number

def unsignedFollow (hdr : ℕ) (sizes : List (ℕ × ℕ)) : Option Follow :=
  if hdr < 0x80 then some (.header hdr)
  else if hdr = 0xcc then some .byte
  else (sizes.lookup hdr).map .number

def countFollow (hdr group : ℕ) (sizes : List (ℕ × ℕ)) : Option Follow :=
  if hdr / 16 = group then some (.header (hdr % 16)) else (sizes.lookup hdr).map .number

/-- The branch that the function for a kind takes on a header. -/
def follow (k : Kind) (hdr : ℕ) : Option Follow :=
  match k with
  | .nil => if hdr = 0xc0 then some (.header 0) else none
  | .bool => if hdr = 0xc2 then some (.header 0) else if hdr = 0xc3 then some (.header 1) else none
  | .int8 => signedFollow hdr []
  | .int16 => signedFollow hdr [(0xd1, 2)]
  | .int32 => signedFollow hdr [(0xd1, 2), (0xd2, 4)]
  | .int64 => signedFollow hdr [(0xd1, 2), (0xd2, 4), (0xd3, 8)]
  | .uint8 => unsignedFollow hdr []
  | .uint16 => unsignedFollow hdr [(0xcd, 2)]
  | .uint32 => unsignedFollow hdr [(0xcd, 2), (0xce, 4)]
  | .uint64 => unsignedFollow hdr [(0xcd, 2), (0xce, 4), (0xcf, 8)]
  | .float => ([(0xca, 4)].lookup hdr).map .number
  | .double => ([(0xcb, 8), (0xca, 4)].lookup hdr).map .number
  | .map => countFollow hdr 8 [(0xde, 2), (0xdf, 4)]
  | .array => countFollow hdr 9 [(0xdc, 2), (0xdd, 4)]
  | .str =>
    if hdr / 32 = 5 then some (.data (hdr % 32))
    else ([(0xd9, 1), (0xda, 2), (0xdb, 4)].lookup hdr).map .counted
  | .bin => ([(0xc4, 1), (0xc5, 2), (0xc6, 4)].lookup hdr).map .counted
  | .ext =>
    if 0xd4 ≤ hdr ∧ hdr ≤ 0xd8 then some (.ext (2 ^ (hdr - 0xd4)))
    else ([(0xc7, 1), (0xc8, 2), (0xc9, 4)].lookup hdr).map .countedExt

/-- A number of some bytes as a value of a kind. -/
def Kind.value (k : Kind) (width raw : ℕ) : Value :=
  match k with
  | .nil => .nothing
  | .bool => .bool (raw = 1)
  | .int8 | .int16 | .int32 | .int64 => .int (signed (8 * width) raw)
  | .uint8 | .uint16 | .uint32 | .uint64 | .map | .array => .int raw
  | .float | .double => .real raw
  | .str | .bin => .data none
  | .ext => .ext 0 none

def Kind.null (k : Kind) : Value := k.value 1 0

/-- The variable for a number with a fraction is not set before it is read. -/
def Kind.unset (k : Kind) (garbage : ℕ) : ℕ := if k = .float ∨ k = .double then garbage else 0

variable (garbage : ℕ)

def Follow.read (k : Kind) (f : Follow) (rest : Input) : Value × Input :=
  match f with
  | .header value => (k.value 1 value, rest)
  | .byte => Prod.map (k.value 1) id (readHdr rest)
  | .number n =>
    let (raw, rest) := readData n rest
    (k.value n (if rest = none then k.unset garbage else raw), rest)
  | .data n => Prod.map .data id (takeData n rest)
  | .counted n =>
    let (n, rest) := readData n rest
    Prod.map .data id (takeData n rest)
  | .ext n =>
    let (type, bytes, rest) := takeExt n rest
    (.ext type bytes, rest)
  | .countedExt n =>
    let (n, rest) := readData n rest
    let (type, bytes, rest) := takeExt n rest
    (.ext type bytes, rest)

/-- packmsg_get_nil, packmsg_get_bool and so on. -/
def get (k : Kind) (input : Input) : Value × Input :=
  let (hdr, rest) := readHdr input
  match follow k hdr with
  | none => (k.null, none)
  | some f => f.read garbage k rest

end Getters

section Failures

variable {garbage : ℕ} {k : Kind} {input : Input}

def Value.isNull : Value → Bool
  | .nothing => true
  | .bool value => !value
  | .int value => value = 0
  | .real bits => bits = 0
  | .data bytes => bytes.isNone
  | .ext type bytes => decide (type = 0) && bytes.isNone

/-- A call that reads one element, or one that also copies it: to memory that may be
lacking, or to a buffer of some size. -/
inductive Call
  | get (k : Kind) (garbage : ℕ)
  | strDup (memory : Bool)
  | strCopy (size : ℕ)
  | binDup (memory : Bool)
  | binCopy (size : ℕ)
  | extDup (memory : Bool)
  | extCopy (size : ℕ)

def Value.bytes : Value → Bytes
  | .data bytes => bytes.getD []
  | .ext _ bytes => bytes.getD []
  | _ => []

/-- A copy is made of the data of an element when it can be. -/
def copy (k : Kind) (possible : Bytes → Bool) (input : Input) : Value × Input :=
  match get 0 k input with
  | (_, none) => (k.null, none)
  | (value, some rest) => if possible value.bytes then (value, some rest) else (k.null, none)

def call (c : Call) (input : Input) : Value × Input :=
  match c with
  | .get k garbage => get garbage k input
  | .strDup memory => copy .str (fun _ => memory) input
  | .strCopy size => copy .str (fun bytes => decide (bytes.length < size)) input
  | .binDup memory => copy .bin (fun _ => memory) input
  | .binCopy size => copy .bin (fun bytes => decide (bytes.length ≤ size)) input
  | .extDup memory => copy .ext (fun _ => memory) input
  | .extCopy size => copy .ext (fun bytes => decide (bytes.length ≤ size)) input

/-- What a sequence of calls returns, each with the input that it leaves. -/
def results (input : Input) : List Call → List (Value × Input)
  | [] => []
  | c :: cs => call c input :: results (call c input).2 cs

/-- Only these calls return something else than null with an error: for an integer of one
byte that is missing, and for a cut off number with a fraction. -/
def Leaks (input : Input) : Call → Prop
  | .get k garbage => ∃ hdr rest, input = some (hdr :: rest) ∧
      (follow k hdr.toNat = some .byte ∧ rest = [] ∨
        ∃ n, follow k hdr.toNat = some (.number n) ∧ rest.length % 2 ^ 32 < n ∧
          k.unset garbage ≠ 0)
  | _ => False

theorem null_isNull (k : Kind) : k.null.isNull = true := by
  cases k with
  | _ => rfl

theorem value_isNull_iff (k : Kind) (n garbage : ℕ) :
    (k.value n (k.unset garbage)).isNull = true ↔ k.unset garbage = 0 := by
  have hsigned : signed (8 * n) 0 = 0 := if_pos (Nat.two_pow_pos _)
  cases k with
  | _ => simp [Kind.value, Kind.unset, Value.isNull, hsigned]

theorem mark_not_isNull {hdr : ℕ} (h : follow k hdr = some .byte) :
    (k.value 1 0xc1).isNull = false := by
  cases k with
  | nil | bool | float | double | map | array | str | bin | ext =>
    simp only [follow, countFollow] at h
    repeat' split at h
    all_goals simp at h
  | _ => rfl

theorem readData_none (n : ℕ) (bytes : Bytes) :
    (readData n (some bytes)).2 = none ↔ bytes.length % 2 ^ 32 < n := by
  unfold readData
  dsimp only
  split
  · exact ⟨nofun, fun h => absurd h (by omega)⟩
  · exact ⟨fun _ => by omega, fun _ => rfl⟩

theorem takeData_none {n : ℕ} (h : (takeData n input).2 = none) :
    takeData n input = (none, none) := by
  unfold takeData at h ⊢
  split
  · rfl
  dsimp only at h ⊢
  split at h
  · cases h
  · rw [if_neg ‹_›]

theorem takeExt_none {n : ℕ} (h : (takeExt n input).2.2 = none) :
    takeExt n input = (0, none, none) := by
  unfold takeExt at h ⊢
  dsimp only at h ⊢
  cases hdata : takeData n (readHdr input).2 with
  | mk bytes rest =>
    rw [hdata] at h
    cases bytes with
    | none => exact congrArg (fun r => (0, none, r)) h
    | some bytes =>
      have hnone : (takeData n (readHdr input).2).2 = none := by rw [hdata]; exact h
      exact absurd (hdata.symm.trans (takeData_none hnone)) (by simp)

/-- No function takes the mark for a missing header. -/
theorem follow_mark (k : Kind) : follow k 0xc1 = none := by
  cases k with
  | _ => rfl

theorem get_cons (garbage : ℕ) (k : Kind) (hdr : UInt8) (rest : Bytes) :
    get garbage k (some (hdr :: rest)) =
      match follow k hdr.toNat with
      | none => (k.null, none)
      | some f => f.read garbage k (some rest) := rfl

theorem get_mark (garbage : ℕ) (k : Kind) (h : readHdr input = (0xc1, none)) :
    get garbage k input = (k.null, none) := by
  unfold get
  rw [h]
  dsimp only
  rw [follow_mark]

/-- A call that fails returns null unless it leaks. -/
theorem get_failed (h : (get garbage k input).2 = none) :
    (get garbage k input).1.isNull = true ↔ ¬Leaks input (.get k garbage) := by
  rcases input with _ | _ | ⟨hdr, rest⟩
  · rw [get_mark garbage k rfl]
    exact iff_of_true (null_isNull k) fun ⟨_, _, hcons, _⟩ => nomatch hcons
  · rw [get_mark garbage k rfl]
    exact iff_of_true (null_isNull k) fun ⟨_, _, hcons, _⟩ => nomatch hcons
  have hleaks : Leaks (some (hdr :: rest)) (.get k garbage) ↔
      (follow k hdr.toNat = some .byte ∧ rest = [] ∨
        ∃ n, follow k hdr.toNat = some (.number n) ∧ rest.length % 2 ^ 32 < n ∧
          k.unset garbage ≠ 0) := by simp [Leaks]
  rw [hleaks]
  rw [get_cons] at h ⊢
  cases hf : follow k hdr.toNat with
  | none => simp [null_isNull]
  | some f =>
    rw [hf] at h
    dsimp only at h ⊢
    cases f with
    | header value => cases h
    | byte =>
      cases rest with
      | nil => simp [Follow.read, readHdr, mark_not_isNull hf]
      | cons b rest => cases h
    | number n =>
      have hcut := (readData_none n rest).mp h
      have hnone : (readData n (some rest)).2 = none := h
      simp only [Follow.read, hnone, if_true, value_isNull_iff]
      constructor
      · rintro hunset (⟨hbyte, -⟩ | ⟨_, -, -, hset⟩)
        · cases hbyte
        · exact hset hunset
      · exact fun hno => Classical.byContradiction fun hset => hno (.inr ⟨n, rfl, hcut, hset⟩)
    | data n =>
      have hnull : takeData n (some rest) = (none, none) := takeData_none h
      simp [Follow.read, hnull, Value.isNull]
    | counted n =>
      have hnull : takeData (readData n (some rest)).1 (readData n (some rest)).2 =
        (none, none) := takeData_none h
      simp [Follow.read, hnull, Value.isNull]
    | ext n =>
      have hnull : takeExt n (some rest) = (0, none, none) := takeExt_none h
      simp [Follow.read, hnull, Value.isNull]
    | countedExt n =>
      have hnull : takeExt (readData n (some rest)).1 (readData n (some rest)).2 =
        (0, none, none) := takeExt_none h
      simp [Follow.read, hnull, Value.isNull]

theorem leaks_failed {c : Call} (h : Leaks input c) : (call c input).2 = none := by
  cases c with
  | get k garbage =>
    obtain ⟨hdr, rest, rfl, ⟨hf, rfl⟩ | ⟨n, hf, hcut, -⟩⟩ := h
    · simp [call, get_cons, hf, Follow.read, readHdr]
    · simp only [call, get_cons, hf, Follow.read]
      exact (readData_none n rest).mpr hcut
  | _ => exact h.elim

theorem copy_failed {possible : Bytes → Bool}
    (h : (copy k possible input).2 = none) : (copy k possible input).1.isNull = true := by
  unfold copy at *
  generalize get 0 k input = r at *
  obtain ⟨value, _ | rest⟩ := r
  · exact null_isNull k
  dsimp only at h ⊢
  split at h
  · cases h
  · rw [if_neg ‹_›]
    exact null_isNull k

theorem call_failed {c : Call} (h : (call c input).2 = none) :
    (call c input).1.isNull = true ↔ ¬Leaks input c := by
  cases c with
  | get k garbage => exact get_failed h
  | _ => exact iff_of_true (copy_failed h) not_false

theorem copy_none (k : Kind) (possible : Bytes → Bool) : (copy k possible none).2 = none := by
  unfold copy
  rw [get_mark 0 k rfl]

theorem call_none (c : Call) : (call c none).1.isNull = true ∧ (call c none).2 = none := by
  cases c with
  | get k garbage =>
    rw [call, get_mark garbage k rfl]
    exact ⟨null_isNull k, rfl⟩
  | _ => exact ⟨copy_failed (copy_none _ _), copy_none _ _⟩

theorem results_none (cs : List Call) : ∀ r ∈ results none cs, r.1.isNull = true ∧ r.2 = none := by
  induction cs with
  | nil => exact fun r hr => nomatch hr
  | cons c cs ih =>
    intro r hr
    have hcall := call_none c
    rw [results, hcall.2] at hr
    rcases List.mem_cons.mp hr with rfl | hrest
    · exact hcall
    · exact ih r hrest

/-- Once a call leaves the input invalid, it and all later calls return null and the input
stays invalid, as long as no call leaks. -/
theorem failures_null_iff (input : Input) (calls : List Call) :
    (∀ value later, (value, none) :: later <:+ results input calls →
      value.isNull = true ∧
        ∀ r ∈ later, r.1.isNull = true ∧ inputOk r.2 = false ∧ Packmsg.done r.2 = false) ↔
      Along (fun input c => (call c input).2) (fun input c => ¬Leaks input c) input calls := by
  induction calls generalizing input with
  | nil => exact iff_of_true (fun _ _ h => absurd h (by simp [results])) trivial
  | cons c cs ih =>
    rw [Along, ← ih, results]
    constructor
    · intro h
      refine ⟨fun hleaks => ?_, fun value later hlater => ?_⟩
      · have hfailed := leaks_failed hleaks
        have hnull := (h (call c input).1 _ (by rw [← hfailed])).1
        exact (call_failed hfailed).mp hnull hleaks
      · exact h value later (hlater.trans (List.suffix_cons _ _))
    · rintro ⟨hclean, hrest⟩ value later hlater
      rcases List.suffix_cons_iff.mp hlater with heq | hsuffix
      · obtain ⟨hcall, rfl⟩ := List.cons.inj heq
        have hfailed : (call c input).2 = none := by rw [← hcall]
        refine ⟨?_, fun r hr => ?_⟩
        · have hnull := (call_failed hfailed).mpr hclean
          rwa [← hcall] at hnull
        rw [hfailed] at hr
        obtain ⟨hnull, hnone⟩ := results_none cs r hr
        rw [hnone]
        exact ⟨hnull, rfl, rfl⟩
      · exact hrest value later hsuffix

/-- An integer of one byte that is cut off is not null. -/
theorem cut_int8_leaks :
    let rs := results (some [0xd0]) [.get .int8 0, .get .bool 0]
    rs = [(.int (-63), none), (.bool false, none)] ∧
      ¬∀ value later, (value, none) :: later <:+ rs → value.isNull = true ∧
        ∀ r ∈ later, r.1.isNull = true ∧ inputOk r.2 = false ∧ Packmsg.done r.2 = false := by
  intro rs
  have hresults : rs = [(.int (-63), none), (.bool false, none)] := by decide +revert
  refine ⟨hresults, fun h => ?_⟩
  rw [hresults] at h
  exact absurd (h _ _ (List.suffix_refl _)).1 (by decide)

end Failures

end Meshlink.PackmsgGetters
