import Meshlink.BufferContents

/-!
The ring buffer as a plain sequence of places, each of which holds the byte that
was stored there last. Growing the ring, moving it between caller storage and
memory of its own and discarding from its front all refine the operations on the
sequence; a place that was skipped by a write further back holds nothing.
-/
namespace Meshlink.BufferRefinement

open List UtcpBuffer

inductive Call
  | putAt (offset : ℕ) (data : List UInt8) (a : Alloc)
  | put (data : List UInt8) (a : Alloc)
  | copy (offset len : ℕ)
  | discard (len : ℕ)
  | clear
  | setStorage (storage : Option (ℕ → UInt8)) (size : ℕ) (a : Alloc)

/-- The buffer after a call, if no assertion fails and abort() is not called. -/
def perform (buf : Buffer) : Call → Option Buffer
  | .putAt offset data a => (bufferPutAt buf offset data a).map Prod.snd
  | .put data a => (bufferPut buf data a).map Prod.snd
  | .copy _ _ => some buf
  | .discard len => some (bufferDiscard buf len)
  | .clear => some (bufferClear buf)
  | .setStorage storage size a => setBufferStorage buf storage size a

def performAll : Buffer → List Call → Option Buffer
  | buf, [] => some buf
  | buf, call :: rest => (perform buf call).bind fun next => performAll next rest

/-- The allocation that the call may make succeeds. -/
def allocates : Call → Bool
  | .putAt _ _ a => a.ok
  | .put _ a => a.ok
  | .setStorage _ _ a => a.ok
  | _ => true

def handsStorage : Call → Bool
  | .setStorage storage _ _ => storage.isSome
  | _ => false

/-- No call hands new external storage to a buffer that is external already. -/
def handsOnce : Buffer → List Call → Bool
  | _, [] => true
  | buf, call :: rest => !(handsStorage call && buf.external) &&
      match perform buf call with
      | none => true
      | some next => handsOnce next rest

/-- Buffers are made for new connections and changed by calls, some of which may
fail to allocate memory. -/
inductive Reachable : Buffer → Prop
  | sndbuf {buf : Buffer} (a : Alloc)
      (h : bufferSetSize .empty defaultSndbufsize defaultMaxsndbufsize a = some (true, buf)) :
      Reachable buf
  | rcvbuf {buf : Buffer} (a : Alloc)
      (h : bufferSetSize .empty defaultRcvbufsize defaultMaxrcvbufsize a = some (true, buf)) :
      Reachable buf
  | call {buf next : Buffer} (call : Call) (hbuf : Reachable buf)
      (h : perform buf call = some next) : Reachable next

section Abstract

variable (cells : List (Option UInt8)) (offset : ℕ) (data : List UInt8)

/-- A sequence of places with the bytes stored in them, and how many there may be. -/
structure Store where
  cells : List (Option UInt8)
  maxsize : ℕ

def overwrite : List (Option UInt8) :=
  (cells.take offset ++ List.replicate (offset - cells.length) none) ++
    (data.map some ++ cells.drop (offset + data.length))

/-- What does not fit is cut off. -/
def Store.put (s : Store) (offset : ℕ) (data : List UInt8) : Store :=
  if s.maxsize ≤ offset ∧ s.maxsize < offset + data.length then s
  else {s with cells := overwrite s.cells offset (data.take (s.maxsize - offset))}

def Store.perform (s : Store) : Call → Store
  | .putAt offset data _ => s.put offset data
  | .put data _ => s.put s.cells.length data
  | .copy _ _ => s
  | .discard len => {s with cells := s.cells.drop len}
  | .clear => {s with cells := []}
  | .setStorage _ size _ => {s with maxsize := min size uint32Max}

/-- The store that holds what a buffer holds. -/
def Store.of (buf : Buffer) : Store := ⟨buf.contents.map some, buf.maxsize⟩

theorem overwrite_length :
    (overwrite cells offset data).length = max cells.length (offset + data.length) := by
  unfold overwrite
  simp only [length_append, length_take, length_replicate, length_map,
    length_drop]
  omega

theorem length_front :
    (cells.take offset ++ List.replicate (offset - cells.length) none).length = offset := by
  simp only [length_append, length_take, length_replicate]
  omega

theorem overwrite_inside (i : ℕ)
    (hi : i < data.length) : (overwrite cells offset data)[offset + i]? = some data[i]? := by
  have hfront := length_front cells offset
  unfold overwrite
  rw [getElem?_append_right (by omega), hfront, Nat.add_sub_cancel_left,
    getElem?_append_left (by simpa using hi), getElem?_map]
  simp [getElem?_eq_getElem hi]

theorem overwrite_outside {i : ℕ} {v : UInt8} (hi : i < offset ∨ offset + data.length ≤ i)
    (h : (overwrite cells offset data)[i]? = some (some v)) : cells[i]? = some (some v) := by
  have hfront := length_front cells offset
  unfold overwrite at h
  rcases hi with hlow | hhigh
  · rw [getElem?_append_left (by omega)] at h
    by_cases hold : i < cells.length
    · rw [getElem?_append_left (by simp; omega), getElem?_take_of_lt hlow] at h
      exact h
    · rw [getElem?_append_right (by simp; omega)] at h
      have hnone := eq_of_mem_replicate (mem_of_getElem? h)
      exact absurd hnone (by simp)
  · rw [getElem?_append_right (by omega), hfront, getElem?_append_right (by simp; omega),
      length_map, getElem?_drop] at h
    rw [show offset + data.length + (i - offset - data.length) = i by omega] at h
    exact h

end Abstract

section Refinement

/-- The buffer holds every byte of the store at its place. -/
structure Represents (buf : Buffer) (s : Store) : Prop where
  wf : buf.Wf
  used : buf.used = s.cells.length
  maxsize : buf.maxsize = s.maxsize
  bytes : ∀ i v, s.cells[i]? = some (some v) → buf.get i = v

variable {buf : Buffer} {s : Store}

theorem represents_of (h : buf.Wf) : Represents buf (Store.of buf) where
  wf := h
  used := by simp [Store.of]
  maxsize := rfl
  bytes := by
    intro i v hcell
    have hi : i < buf.used := by
      have hlt := (List.getElem?_eq_some_iff.mp hcell).1
      simpa [Store.of] using hlt
    simp only [Store.of, getElem?_map, Buffer.contents_getElem? buf i hi, Option.map_some,
      Option.some.injEq] at hcell
    exact hcell

/-- Bytes that are stored take their places and leave the others alone. -/
theorem Represents.stored (h : Represents buf s) {offset : ℕ} {data : List UInt8} {next : Buffer}
    (hstored : Stored buf offset data next) :
    Represents next {s with cells := overwrite s.cells offset data} where
  wf := hstored.wf
  used := by rw [hstored.used, h.used, overwrite_length]
  maxsize := hstored.maxsize.trans h.maxsize
  bytes := by
    intro i v hcell
    by_cases hin : offset ≤ i ∧ i < offset + data.length
    · have hi : i - offset < data.length := by omega
      have hsome := overwrite_inside s.cells offset data (i - offset) hi
      rw [show offset + (i - offset) = i by omega] at hsome
      have hread := hstored.inside (i - offset) hi
      rw [show offset + (i - offset) = i by omega] at hread
      have hboth := hsome.symm.trans hcell
      rw [hread] at hboth
      exact Option.some.inj (Option.some.inj hboth)
    · have hout : i < offset ∨ offset + data.length ≤ i := by omega
      have hold := overwrite_outside s.cells offset data hout hcell
      have hi : i < buf.used := by
        rw [h.used]
        exact (List.getElem?_eq_some_iff.mp hold).1
      rw [hstored.outside i hi hout]
      exact h.bytes i v hold

theorem Represents.putAt (h : Represents buf s) (offset : ℕ) (data : List UInt8) {a : Alloc}
    (ha : a.ok = true) : ∃ next, (bufferPutAt buf offset data a).map Prod.snd = some next ∧
      Represents next (s.put offset data) := by
  have hmax := h.maxsize
  unfold Store.put
  by_cases hfull : s.maxsize ≤ offset ∧ s.maxsize < offset + data.length
  · refine ⟨buf, ?_, ?_⟩
    · unfold bufferPutAt
      rw [if_pos (by omega), if_pos (by omega)]
      rfl
    · rw [if_pos hfull]
      exact h
  · obtain ⟨⟨r, next⟩, hput⟩ :=
      Option.isSome_iff_exists.mp (bufferPutAt_isSome buf h.wf offset data a)
    refine ⟨next, by rw [hput]; rfl, ?_⟩
    rw [if_neg hfull]
    rcases bufferPutAt_cases buf h.wf offset data a r next hput with hfail | hnone | hdone
    · exact absurd (ha.symm.trans hfail.2.2.1) (by simp)
    · exact absurd hnone.2.2 (by omega)
    · have hstored := h.stored hdone.2.2
      rw [hmax] at hstored
      exact hstored

theorem Represents.discard (h : Represents buf s) (len : ℕ) :
    Represents (bufferDiscard buf len) {s with cells := s.cells.drop len} where
  wf := bufferDiscard_wf buf h.wf len
  used := by rw [bufferDiscard_used, length_drop, h.used]
  maxsize := h.maxsize
  bytes := by
    intro i v hcell
    rw [getElem?_drop] at hcell
    have hi : len + i < buf.used := by
      rw [h.used]
      exact (List.getElem?_eq_some_iff.mp hcell).1
    rw [bufferDiscard_get buf h.wf len i hi]
    exact h.bytes (len + i) v hcell

theorem Represents.clear (h : Represents buf s) :
    Represents (bufferClear buf) {s with cells := []} where
  wf := bufferClear_wf buf h.wf
  used := rfl
  maxsize := h.maxsize
  bytes := by
    intro i v hcell
    simp at hcell

/-- Storage is only refused to a buffer that is external already, and memory of its
own to one that cannot allocate it. -/
theorem setBufferStorage_isSome (buf : Buffer) (storage : Option (ℕ → UInt8)) (size : ℕ)
    {a : Alloc} (ha : a.ok = true) (hext : storage.isSome = true → buf.external = false) :
    (setBufferStorage buf storage size a).isSome = true := by
  unfold setBufferStorage
  cases storage with
  | some mem =>
    have hint := hext rfl
    simp only [hint, Bool.false_eq_true, ite_false]
    split
    · rfl
    · rfl
  | none =>
    simp only [ha, Bool.not_true, Bool.false_eq_true, ite_false]
    split
    · split
      · split
        · rfl
        · rfl
      · split
        · rfl
        · rfl
    · split
      · rfl
      · split
        · rfl
        · rfl

theorem Represents.setStorage (h : Represents buf s) (storage : Option (ℕ → UInt8)) (size : ℕ)
    {a : Alloc} {next : Buffer} (hset : setBufferStorage buf storage size a = some next) :
    Represents next {s with maxsize := min size uint32Max} := by
  obtain ⟨hwf, hused, hmax, hget⟩ := setBufferStorage_keeps buf h.wf storage size a next hset
  refine ⟨hwf, hused.trans h.used, hmax, ?_⟩
  intro i v hcell
  have hi : i < buf.used := by
    rw [h.used]
    exact (List.getElem?_eq_some_iff.mp hcell).1
  rw [hget i hi]
  exact h.bytes i v hcell

/-- One call on the buffer does what it does on the store. -/
theorem Represents.perform (h : Represents buf s) (call : Call) (halloc : allocates call = true)
    (hext : handsStorage call = true → buf.external = false) :
    ∃ next, BufferRefinement.perform buf call = some next ∧ Represents next (s.perform call) := by
  cases call with
  | putAt offset data a => exact h.putAt offset data halloc
  | put data a =>
    have hput := h.putAt buf.used data halloc
    rw [h.used] at hput
    obtain ⟨next, hnext, hrep⟩ := hput
    refine ⟨next, ?_, hrep⟩
    rw [← hnext, ← h.used]
    rfl
  | copy offset len => exact ⟨buf, rfl, h⟩
  | discard len => exact ⟨bufferDiscard buf len, rfl, h.discard len⟩
  | clear => exact ⟨bufferClear buf, rfl, h.clear⟩
  | setStorage storage size a =>
    obtain ⟨next, hset⟩ :=
      Option.isSome_iff_exists.mp (setBufferStorage_isSome buf storage size halloc hext)
    exact ⟨next, hset, h.setStorage storage size hset⟩

/-- Any sequence of calls goes through, and the buffer represents the store after it. -/
theorem Represents.performAll (h : Represents buf s) (calls : List Call)
    (halloc : ∀ call ∈ calls, allocates call = true) (honce : handsOnce buf calls = true) :
    ∃ last, BufferRefinement.performAll buf calls = some last ∧
      Represents last (calls.foldl Store.perform s) := by
  induction calls generalizing buf s with
  | nil => exact ⟨buf, rfl, h⟩
  | cons call rest ih =>
    unfold handsOnce at honce
    rw [Bool.and_eq_true, Bool.not_eq_true', Bool.and_eq_false_iff] at honce
    have hext : handsStorage call = true → buf.external = false := by
      intro hhands
      rcases honce.1 with hno | hint
      · exact absurd (hno.symm.trans hhands) Bool.false_ne_true
      · exact hint
    obtain ⟨next, hnext, hrep⟩ := h.perform call (halloc call mem_cons_self) hext
    have hrest := honce.2
    rw [hnext] at hrest
    obtain ⟨last, hlast, hend⟩ :=
      ih hrep (fun other hmem => halloc other (mem_cons_of_mem call hmem)) hrest
    refine ⟨last, ?_, hend⟩
    unfold BufferRefinement.performAll
    rw [hnext]
    exact hlast

end Refinement

section Reachable

variable {buf next : Buffer}

theorem putAt_wf (hb : buf.Wf) {offset : ℕ} {data : List UInt8} {a : Alloc}
    (h : (bufferPutAt buf offset data a).map Prod.snd = some next) : next.Wf := by
  obtain ⟨⟨r, result⟩, hput, rfl⟩ := Option.map_eq_some_iff.mp h
  rcases bufferPutAt_cases buf hb offset data a r result hput with hfail | hfull | hdone
  · exact hfail.2.1 ▸ hb
  · exact hfull.2.1 ▸ hb
  · exact hdone.2.2.wf

theorem perform_wf (hb : buf.Wf) {call : Call} (h : perform buf call = some next) : next.Wf := by
  cases call with
  | putAt offset data a => exact putAt_wf hb h
  | put data a => exact putAt_wf hb h
  | copy offset len => exact Option.some.inj h ▸ hb
  | discard len => exact Option.some.inj h ▸ bufferDiscard_wf buf hb len
  | clear => exact Option.some.inj h ▸ bufferClear_wf buf hb
  | setStorage storage size a => exact (setBufferStorage_keeps buf hb storage size a next h).1

theorem reachable_wf (h : Reachable buf) : buf.Wf := by
  have hnew : ∀ maxsize : ℕ, ({Buffer.empty with maxsize := maxsize} : Buffer).Wf :=
    fun _ => ⟨Nat.le_refl 0, Or.inr rfl, fun _ => rfl, fun he => absurd he Bool.false_ne_true⟩
  induction h with
  | sndbuf a h | rcvbuf a h => exact (Prod.mk.inj (Option.some.inj h)).2 ▸ hnew _
  | call call _ h ih => exact perform_wf ih h

/-- Copying from the buffer gives the bytes of the places. -/
def ReadsBack (buf : Buffer) (cells : List (Option UInt8)) : Prop :=
  ∀ offset len, (bufferCopy buf offset len).length = min len (cells.length - offset) ∧
    ∀ i v, i < len → cells[offset + i]? = some (some v) →
      (bufferCopy buf offset len)[i]? = some v

theorem Represents.readsBack {s : Store} (h : Represents buf s) : ReadsBack buf s.cells := by
  intro offset len
  rw [bufferCopy_length, h.used]
  refine ⟨rfl, ?_⟩
  intro i v hi hcell
  have hused : offset + i < buf.used := by
    rw [h.used]
    exact (List.getElem?_eq_some_iff.mp hcell).1
  rw [bufferCopy_getElem? buf h.wf offset len i hi hused, h.bytes (offset + i) v hcell]

/-- From every reachable buffer, calls with successful allocations that never replace
external storage go through without a failed assertion; what is read back afterwards
is what was stored last, and no more is used than there is. -/
theorem buffer_refines_store (hbuf : Reachable buf) (calls : List Call)
    (halloc : ∀ call ∈ calls, allocates call = true) (honce : handsOnce buf calls = true) :
    ∃ last, performAll buf calls = some last ∧ last.used ≤ last.size ∧
      ReadsBack last (calls.foldl Store.perform (Store.of buf)).cells := by
  obtain ⟨last, hlast, hend⟩ := (represents_of (reachable_wf hbuf)).performAll calls halloc honce
  exact ⟨last, hlast, hend.wf.used_le, hend.readsBack⟩

/-- A new buffer is filled with a gap, moved to caller storage of eight bytes, wraps
there, and is moved back. -/
def wrappedCalls : List Call :=
  let a : Alloc := ⟨true, fun _ => 9⟩
  [.put [1, 2, 3, 4] a, .putAt 5 [6] a, .setStorage (some fun _ => 7) 8 a, .discard 3,
    .putAt 3 [5, 6, 7, 8, 9] a, .setStorage none 4096 a]

theorem buffer_refines_store_wrapped :
    let buf : Buffer := {Buffer.empty with maxsize := defaultMaxsndbufsize}
    (performAll buf wrappedCalls).map (fun last => bufferCopy last 3 9) = some [5, 6, 7, 8, 9] ∧
      ∃ last, performAll buf wrappedCalls = some last ∧ last.used ≤ last.size ∧
        ReadsBack last (wrappedCalls.foldl Store.perform (Store.of buf)).cells :=
  ⟨by decide, buffer_refines_store (.sndbuf ⟨true, fun _ => 0⟩ rfl) wrappedCalls (by decide)
    (by decide)⟩

end Reachable

end Meshlink.BufferRefinement
