import Meshlink.UtcpBuffer

/-!
What the ring buffer operations do to the stored bytes. A well-formed buffer
reads back at every logical offset what was stored there last, relative to
the current front; growing, moving and cutting the ring never change that.
-/
namespace Meshlink.UtcpBuffer

open RingMemory

variable (buf : Buffer)

namespace Buffer

@[simp] theorem contents_length (b : Buffer) : b.contents.length = b.used := by
  simp [contents]

theorem contents_getElem? (b : Buffer) (i : ℕ) (h : i < b.used) :
    b.contents[i]? = some (b.get i) := by
  simp [contents, h]

theorem empty_wf : Buffer.empty.Wf where
  used_le := Nat.le_refl 0
  offset_lt := Or.inr rfl
  empty_offset := fun _ => rfl
  external_fits := fun h => by simp [Buffer.empty] at h

theorem Wf.realOffset_eq {b : Buffer} (hb : b.Wf) (i : ℕ) (hi : i < b.size) :
    realOffset b i = slot b.size b.offset i := by
  unfold realOffset slot
  rcases hb.offset_lt with ho | ho <;> split <;> split <;> omega

end Buffer

section Copy

theorem bufferCopy_length (offset len : ℕ) :
    (bufferCopy buf offset len).length = min len (buf.used - offset) := by
  unfold bufferCopy
  split
  · simp
    omega
  dsimp only
  split
  · simp
    omega
  · simp

theorem bufferCopy_getElem? (hb : buf.Wf) (offset len i : ℕ)
    (hi : i < len) (hused : offset + i < buf.used) :
    (bufferCopy buf offset len)[i]? = some (buf.get (offset + i)) := by
  have hsize := hb.used_le
  have hoff := hb.offset_lt
  have hstart : ¬ buf.used ≤ offset := by omega
  have hreal := hb.realOffset_eq offset (by omega)
  simp only [bufferCopy, hstart, ite_false]
  rw [hreal]
  unfold Buffer.get
  have hfrom := slot_cases buf.size buf.offset offset
  have hto := slot_cases buf.size buf.offset (offset + i)
  split
  · rename_i hroom
    by_cases hfirst : i < buf.size - slot buf.size buf.offset offset
    · rw [List.getElem?_append_left (by simpa using hfirst), window_getElem? _ _ _ _ hfirst]
      congr 2
      omega
    rw [List.getElem?_append_right (by simpa using hfirst), window_getElem? _ _ _ _
      (by simp only [window_length]; omega)]
    simp only [window_length]
    congr 2
    omega
  · rename_i hroom
    rw [window_getElem? _ _ _ _ (by omega)]
    congr 2
    omega

end Copy

section Discard

variable (buf : Buffer)

theorem bufferDiscard_wf (hb : buf.Wf) (len : ℕ) : (bufferDiscard buf len).Wf := by
  have hused := hb.used_le
  have hoff := hb.offset_lt
  constructor
  · simp only [bufferDiscard]
    omega
  · simp only [bufferDiscard]
    split
    · exact Or.inr rfl
    · split <;> omega
  · intro h
    simp only [bufferDiscard] at *
    rw [ite_cond_eq_true _ _ (eq_true (by omega))]
  · exact hb.external_fits

theorem bufferDiscard_used (len : ℕ) : (bufferDiscard buf len).used = buf.used - len := by
  simp only [bufferDiscard]
  omega

theorem bufferDiscard_get (hb : buf.Wf) (len i : ℕ) (hi : len + i < buf.used) :
    (bufferDiscard buf len).get i = buf.get (len + i) := by
  have hused := hb.used_le
  have hoff := hb.offset_lt
  have hlen : min len buf.used = len := by omega
  have hne : ¬ buf.used = len := by omega
  have hto := slot_cases buf.size buf.offset (len + i)
  have hfrom := slot_cases buf.size
    (if buf.size - buf.offset ≤ len then buf.offset + len - buf.size else buf.offset + len) i
  simp only [Buffer.get, bufferDiscard, hlen, hne, ite_false]
  congr 1
  split at hfrom <;> split <;> omega

theorem bufferClear_wf (hb : buf.Wf) : (bufferClear buf).Wf where
  used_le := Nat.zero_le _
  offset_lt := Or.inr rfl
  empty_offset := fun _ => rfl
  external_fits := hb.external_fits

end Discard

section Write

variable (hb : buf.Wf) (offset : ℕ) (data : List UInt8)
  (hfit : offset + data.length ≤ buf.size)

include hb hfit

/-- A write that fits changes exactly the cells it covers. -/
theorem bufferWrite_get (i : ℕ) (hi : i < buf.size) :
    (bufferWrite buf offset data).get i =
      if offset ≤ i then (data[i - offset]?).getD (buf.get i) else buf.get i := by
  by_cases hempty : data = []
  · subst data
    simp [bufferWrite, Buffer.get, blit]
  have hpos : 0 < data.length := List.length_pos_of_ne_nil hempty
  have hoff := hb.offset_lt
  have hreal := hb.realOffset_eq offset (by omega)
  have hfrom := slot_cases buf.size buf.offset offset
  have hto := slot_cases buf.size buf.offset i
  simp only [bufferWrite, hreal, Buffer.get]
  generalize slot buf.size buf.offset offset = start at *
  generalize slot buf.size buf.offset i = cell at *
  split
  · by_cases hlow : cell < data.length - (buf.size - start)
    · rw [blit_from _ _ _ _ (Nat.zero_le cell), Nat.sub_zero, List.getElem?_drop,
        show buf.size - start + cell = i - offset by omega, if_pos (by omega),
        List.getElem?_eq_getElem (by omega)]
      rfl
    rw [blit_above _ _ _ _ (by simp; omega)]
    by_cases hhigh : start ≤ cell
    · rw [blit_from _ _ _ _ hhigh, List.getElem?_take_of_lt (by omega),
        show cell - start = i - offset by omega, if_pos (by omega)]
    rw [blit_below _ _ _ _ (by omega)]
    by_cases hin : offset ≤ i
    · simp [hin, List.getElem?_eq_none (show data.length ≤ i - offset by omega)]
    · simp [hin]
  by_cases hcell : start ≤ cell <;> by_cases hin : offset ≤ i
  · rw [blit_from _ _ _ _ hcell, if_pos hin, show cell - start = i - offset by omega]
  · rw [blit_from _ _ _ _ hcell, if_neg hin, List.getElem?_eq_none (by omega)]
    rfl
  · rw [blit_below _ _ _ _ (by omega), if_pos hin, List.getElem?_eq_none (by omega)]
    rfl
  · rw [blit_below _ _ _ _ (by omega), if_neg hin]

theorem bufferWrite_wf : (bufferWrite buf offset data).Wf where
  used_le := Nat.max_le.mpr ⟨hb.used_le, hfit⟩
  offset_lt := hb.offset_lt
  empty_offset := fun h => hb.empty_offset (by simp only [bufferWrite] at h; omega)
  external_fits := hb.external_fits

end Write

section Resize

theorem le_doubleUntil (required fuel newsize : ℕ) (hpos : 0 < newsize)
    (h : required ≤ newsize + fuel) : required ≤ doubleUntil required fuel newsize := by
  induction fuel generalizing newsize with
  | zero =>
    simp only [doubleUntil]
    omega
  | succ fuel ih =>
    simp only [doubleUntil]
    split
    · exact ih (2 * newsize) (by omega) (by omega)
    · omega

theorem le_grownSize (required : ℕ) (h : required ≤ buf.maxsize) :
    required ≤ grownSize buf required := by
  unfold grownSize
  refine Nat.le_min.mpr ⟨?_, h⟩
  apply le_doubleUntil
  · split <;> omega
  · omega

theorem bufferResize_isSome (newsize : ℕ) (a : Alloc)
    (hext : buf.external = false) : (bufferResize buf newsize a).isSome := by
  simp only [bufferResize, hext, Bool.false_eq_true, ite_false]
  split
  · rfl
  · split
    · rfl
    · split <;> rfl

/-- Growing an internal buffer keeps the bytes at their logical offsets. -/
theorem bufferResize_grow (hb : buf.Wf) (newsize : ℕ) (a : Alloc) (grown : Buffer)
    (hsize : buf.size < newsize) (h : bufferResize buf newsize a = some (true, grown)) :
    grown.Wf ∧ grown.size = newsize ∧ grown.used = buf.used ∧ grown.maxsize = buf.maxsize ∧
      grown.external = buf.external ∧ ∀ i, i < buf.used → grown.get i = buf.get i := by
  have hused := hb.used_le
  have hoff := hb.offset_lt
  have hempty := hb.empty_offset
  unfold bufferResize at h
  split at h
  · simp at h
  rename_i hext
  have hne : newsize ≠ 0 := by omega
  simp only [hne, ite_false] at h
  split at h
  · simp at h
  split at h
  · rename_i hwrap
    simp only [bufferWraps, decide_eq_true_eq] at hwrap
    simp only [Option.some.injEq, Prod.mk.injEq, true_and] at h
    subst h
    refine ⟨⟨by dsimp only; omega, ?_, ?_, ?_⟩, rfl, rfl, rfl, rfl, ?_⟩
    · dsimp only
      omega
    · intro hu
      dsimp only at hu
      omega
    · intro he
      exact absurd he hext
    intro i hi
    have hold := slot_cases buf.size buf.offset i
    have hnew := slot_cases newsize (newsize - (buf.size - buf.offset)) i
    simp only [Buffer.get]
    generalize slot newsize (newsize - (buf.size - buf.offset)) i = cell at *
    generalize slot buf.size buf.offset i = old at *
    by_cases htail : newsize - (buf.size - buf.offset) ≤ cell
    · rw [blit_window _ _ _ _ _ _ htail (by omega),
        show buf.offset + (cell - (newsize - (buf.size - buf.offset))) = old by omega]
      simp [reallocData, show old < buf.size by omega]
    · rw [blit_below _ _ _ _ (by omega), show cell = old by omega]
      simp [reallocData, show old < buf.size by omega]
  · rename_i hwrap
    simp only [bufferWraps, decide_eq_true_eq] at hwrap
    simp only [Option.some.injEq, Prod.mk.injEq, true_and] at h
    subst h
    refine ⟨⟨by dsimp only; omega, by dsimp only; omega, hempty, ?_⟩, rfl, rfl, rfl, rfl, ?_⟩
    · intro he
      exact absurd he hext
    intro i hi
    have hold := slot_cases buf.size buf.offset i
    have hnew := slot_cases newsize buf.offset i
    simp only [Buffer.get]
    rw [show slot newsize buf.offset i = slot buf.size buf.offset i by omega]
    simp [reallocData, show slot buf.size buf.offset i < buf.size by omega]

end Resize

section Put

/-- The buffer after `data` went in completely at a logical offset. -/
structure Stored (buf : Buffer) (offset : ℕ) (data : List UInt8) (result : Buffer) : Prop where
  wf : result.Wf
  used : result.used = max buf.used (offset + data.length)
  maxsize : result.maxsize = buf.maxsize
  external : result.external = buf.external
  inside : ∀ i, i < data.length → data[i]? = some (result.get (offset + i))
  outside : ∀ i, i < buf.used → i < offset ∨ offset + data.length ≤ i →
    result.get i = buf.get i

variable (buf : Buffer) (hb : buf.Wf) (offset : ℕ) (data : List UInt8)

include hb

theorem bufferWrite_stored (hfit : offset + data.length ≤ buf.size) :
    Stored buf offset data (bufferWrite buf offset data) where
  wf := bufferWrite_wf buf hb offset data hfit
  used := rfl
  maxsize := rfl
  external := rfl
  inside i hi := by
    rw [bufferWrite_get buf hb offset data hfit _ (by omega)]
    simp [List.getElem?_eq_getElem hi]
  outside i hi hout := by
    have hused := hb.used_le
    rw [bufferWrite_get buf hb offset data hfit i (by omega)]
    rcases hout with hlow | hhigh
    · simp [show ¬ offset ≤ i by omega]
    · simp [show offset ≤ i by omega,
        List.getElem?_eq_none (show data.length ≤ i - offset by omega)]

theorem bufferStore_cases (a : Alloc) (r : Int) (result : Buffer)
    (hmax : offset + data.length ≤ buf.maxsize)
    (h : bufferStore buf offset data a = some (r, result)) :
    (r = -1 ∧ result = buf ∧ a.ok = false ∧ buf.size < offset + data.length) ∨
      (r = data.length ∧ Stored buf offset data result) := by
  unfold bufferStore at h
  split at h
  · rename_i hsize
    have hgrown := le_grownSize buf (offset + data.length) hmax
    split at h
    · simp at h
    · rename_i hresize
      simp only [Option.some.injEq, Prod.mk.injEq] at h
      refine Or.inl ⟨h.1.symm, h.2.symm, ?_, hsize⟩
      unfold bufferResize at hresize
      simp only [show grownSize buf (offset + data.length) ≠ 0 by omega, ite_false] at hresize
      cases hok : a.ok with
      | false => rfl
      | true =>
        simp only [hok, Bool.not_true, Bool.false_eq_true, ite_false] at hresize
        split at hresize
        · simp at hresize
        · split at hresize <;> simp at hresize
    · rename_i grown hresize
      obtain ⟨hwf, hnew, hused, hmaxsize, hext, hget⟩ :=
        bufferResize_grow buf hb _ a grown (by omega) hresize
      have hfit : offset + data.length ≤ grown.size := by omega
      have hstored := bufferWrite_stored grown hwf offset data hfit
      simp only [Option.some.injEq, Prod.mk.injEq] at h
      rw [← h.2]
      refine Or.inr ⟨h.1.symm, hstored.wf, ?_, ?_, ?_, hstored.inside, ?_⟩
      · rw [hstored.used, hused]
      · rw [hstored.maxsize, hmaxsize]
      · rw [hstored.external, hext]
      · intro i hi hout
        rw [hstored.outside i (by omega) hout, hget i hi]
  · rename_i hsize
    simp only [Option.some.injEq, Prod.mk.injEq] at h
    rw [← h.2]
    exact Or.inr ⟨h.1.symm, bufferWrite_stored buf hb offset data (by omega)⟩

/-- buffer_put_at fails to allocate, finds no room, or stores what fits. -/
theorem bufferPutAt_cases (a : Alloc) (r : Int) (result : Buffer)
    (h : bufferPutAt buf offset data a = some (r, result)) :
    (r = -1 ∧ result = buf ∧ a.ok = false ∧ buf.size < offset + data.length) ∨
      (r = 0 ∧ result = buf ∧ buf.maxsize ≤ offset ∧ buf.maxsize < offset + data.length) ∨
      (r = min data.length (buf.maxsize - offset) ∧
        offset + min data.length (buf.maxsize - offset) ≤ buf.maxsize ∧
        Stored buf offset (data.take (buf.maxsize - offset)) result) := by
  unfold bufferPutAt at h
  split at h
  · rename_i hlarge
    split at h
    · rename_i hfull
      simp only [Option.some.injEq, Prod.mk.injEq] at h
      exact Or.inr (Or.inl ⟨h.1.symm, h.2.symm, hfull, hlarge⟩)
    rename_i hfull
    have hcut : (data.take (buf.maxsize - offset)).length = buf.maxsize - offset := by
      simp
      omega
    rcases bufferStore_cases buf hb offset _ a r result (by omega) h with hfail | hdone
    · exact Or.inl ⟨hfail.1, hfail.2.1, hfail.2.2.1, by omega⟩
    · refine Or.inr (Or.inr ⟨?_, by omega, hdone.2⟩)
      rw [hdone.1, hcut]
      omega
  · rename_i hsmall
    have hcut : data.take (buf.maxsize - offset) = data := List.take_of_length_le (by omega)
    rcases bufferStore_cases buf hb offset data a r result (by omega) h with hfail | hdone
    · exact Or.inl hfail
    refine Or.inr (Or.inr ⟨?_, by omega, ?_⟩)
    · rw [hdone.1]
      omega
    · rw [hcut]
      exact hdone.2

/-- The assertion that an external buffer is never resized holds. -/
theorem bufferPutAt_isSome (a : Alloc) :
    (bufferPutAt buf offset data a).isSome := by
  have hstore : ∀ data' : List UInt8, offset + data'.length ≤ buf.maxsize →
      (bufferStore buf offset data' a).isSome := by
    intro data' hmax
    unfold bufferStore
    split
    · rename_i hsize
      cases hext : buf.external with
      | true =>
        have := hb.external_fits hext
        omega
      | false =>
        obtain ⟨⟨done, grown⟩, hresize⟩ := Option.isSome_iff_exists.mp
          (bufferResize_isSome buf (grownSize buf (offset + data'.length)) a hext)
        rw [hresize]
        cases done <;> rfl
    · rfl
  unfold bufferPutAt
  split
  · split
    · rfl
    · exact hstore _ (by simp; omega)
  · exact hstore data (by omega)

end Put

section Storage

/-- Moving the ring to the front of other memory keeps the stored bytes. -/
theorem bufferTransfer_get (hb : buf.Wf) (mem : ℕ → UInt8) (newsize : ℕ)
    (hsize : buf.used ≤ newsize) (i : ℕ) (hi : i < buf.used) :
    (bufferTransfer buf mem newsize).get i = buf.get i := by
  have hused := hb.used_le
  have hoff := hb.offset_lt
  have hold := slot_cases buf.size buf.offset i
  have hnew : slot newsize 0 i = i := by
    have := slot_cases newsize 0 i
    omega
  simp only [Buffer.get, bufferTransfer, hnew]
  generalize slot buf.size buf.offset i = cell at *
  split
  · rename_i hwrap
    simp only [bufferWraps, decide_eq_true_eq] at hwrap
    by_cases hfirst : i < buf.size - buf.offset
    · rw [blit_below _ _ _ _ hfirst]
      rw [blit_window _ _ _ _ _ _ (Nat.zero_le i) (by omega),
        show buf.offset + (i - 0) = cell by omega]
    · rw [blit_window _ _ _ _ _ _ (Nat.le_of_not_lt hfirst) (by omega),
        show 0 + (i - (buf.size - buf.offset)) = cell by omega]
  · rename_i hwrap
    simp only [bufferWraps, decide_eq_true_eq] at hwrap
    rw [blit_window _ _ _ _ _ _ (Nat.zero_le i) (by omega),
      show buf.offset + (i - 0) = cell by omega]

/-- Replacing the storage or its maximum leaves the stored bytes alone. -/
theorem setBufferStorage_keeps (hb : buf.Wf) (storage : Option (ℕ → UInt8))
    (size : ℕ) (a : Alloc) (result : Buffer)
    (h : setBufferStorage buf storage size a = some result) :
    result.Wf ∧ result.used = buf.used ∧ result.maxsize = min size uint32Max ∧
      ∀ i, i < buf.used → result.get i = buf.get i := by
  have hused := hb.used_le
  have hoff := hb.offset_lt
  have hempty := hb.empty_offset
  have hcell := fun i => slot_cases buf.size buf.offset i
  unfold setBufferStorage at h
  cases storage with
  | some mem =>
    dsimp only at h
    split at h
    · simp at h
    rename_i hext
    split at h
    · cases h
      exact ⟨⟨hused, hoff, hempty, fun he => absurd he hext⟩, rfl, rfl, fun i hi => rfl⟩
    rename_i hfits
    cases h
    have hmax : ({ buf with maxsize := min size uint32Max } : Buffer).Wf :=
      ⟨hused, hoff, hempty, fun he => absurd he hext⟩
    refine ⟨⟨by simp only [bufferTransfer]; omega, Or.inr rfl, fun _ => rfl,
      fun _ => Nat.le_refl _⟩, rfl, rfl, ?_⟩
    intro i hi
    exact bufferTransfer_get _ hmax mem (min size uint32Max) (Nat.le_of_not_lt hfits) i hi
  | none =>
    dsimp only at h
    split at h
    · rename_i hext
      have hmin : (if buf.used ≤ defaultSndbufsize then defaultSndbufsize else buf.used) =
          buf.used := by
        unfold defaultSndbufsize
        split <;> omega
      rw [hmin] at h
      split at h
      · rename_i hzero
        cases h
        exact ⟨⟨by dsimp only; omega, Or.inr (hempty hzero), hempty, fun he => by simp at he⟩,
          rfl, rfl, fun i hi => by omega⟩
      · split at h
        · simp at h
        cases h
        have hget := bufferTransfer_get buf hb a.fresh buf.used (Nat.le_refl _)
        exact ⟨⟨Nat.le_refl _, Or.inr rfl, fun _ => rfl, fun he => by simp at he⟩,
          rfl, rfl, hget⟩
    · rename_i hext
      have hnone : ∀ b : Buffer, b.external = buf.external → b.external = true →
          b.maxsize ≤ b.size := fun b he hb' => absurd (he ▸ hb') hext
      split at h
      · cases h
        exact ⟨⟨hused, hoff, hempty, hnone _ rfl⟩, rfl, rfl, fun i hi => rfl⟩
      rename_i hwrap
      simp only [bufferWraps, decide_eq_true_eq] at hwrap
      have hmin : max defaultSndbufsize (buf.offset + buf.used) = buf.offset + buf.used := by
        unfold defaultSndbufsize
        omega
      rw [hmin] at h
      split at h
      · rename_i hzero
        cases h
        exact ⟨⟨by dsimp only; omega, Or.inr (by dsimp only; omega), hempty, hnone _ rfl⟩,
          rfl, rfl, fun i hi => by omega⟩
      · split at h
        · cases h
          exact ⟨⟨hused, hoff, hempty, hnone _ rfl⟩, rfl, rfl, fun i hi => rfl⟩
        cases h
        refine ⟨⟨by dsimp only; omega, by dsimp only; omega, hempty, hnone _ rfl⟩,
          rfl, rfl, ?_⟩
        intro i hi
        have hi' := hcell i
        have hnew := slot_cases (buf.offset + buf.used) buf.offset i
        simp only [Buffer.get]
        rw [show slot (buf.offset + buf.used) buf.offset i = slot buf.size buf.offset i by omega]
        simp [reallocData, show slot buf.size buf.offset i < buf.size by omega]

end Storage

end Meshlink.UtcpBuffer
