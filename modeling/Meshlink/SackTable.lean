import Meshlink.UtcpReceiver

/-!
The SACK table as a list of ranges. Noting a range inserts it, joins it to one
entry or drops it; consuming a stretch from the front keeps the entries that reach
beyond it and shifts them. Entries may come to overlap, because an entry that grows
at its end is not joined to the one after it.
-/
namespace Meshlink.SackTable

open List UtcpState UtcpReceiver

/-- The entries in use come first, with increasing offsets. -/
def Ordered (sacks : List Sack) : Prop :=
  sacks.Pairwise fun s t => t.len ≠ 0 → s.len ≠ 0 ∧ s.offset < t.offset

/-- Every offset inside a recorded range satisfies `P`. -/
def Covered (P : ℕ → Prop) (sacks : List Sack) : Prop :=
  ∀ s ∈ sacks, ∀ o, s.offset ≤ o → o < s.offset + s.len → P o

/-- The range of the entry reaches across the point `len`. -/
def Crosses (len : ℕ) (s : Sack) : Prop := s.offset ≤ len ∧ len < s.offset + s.len

instance (sacks : List Sack) : Decidable (Ordered sacks) :=
  inferInstanceAs (Decidable (List.Pairwise _ sacks))

instance (len : ℕ) : DecidablePred (Crosses len) := fun s =>
  inferInstanceAs (Decidable (s.offset ≤ len ∧ len < s.offset + s.len))

/-- At most one range reaches across the point `len`. -/
def OneCrosses (len : ℕ) (sacks : List Sack) : Prop :=
  sacks.Pairwise fun s t => ¬ (Crosses len s ∧ Crosses len t)

instance (len : ℕ) (sacks : List Sack) : Decidable (OneCrosses len sacks) :=
  inferInstanceAs (Decidable (List.Pairwise _ sacks))

variable {P : ℕ → Prop} {s : Sack} {rest sacks : List Sack}

theorem ordered_cons_empty (h : Ordered (s :: rest)) (hs : s.len = 0) : ∀ t ∈ rest, t.len = 0 := by
  intro t ht
  by_contra hne
  exact ((pairwise_cons.mp h).1 t ht hne).1 hs

theorem ordered_of_empty (h : ∀ t ∈ sacks, t.len = 0) : Ordered sacks :=
  pairwise_of_forall_mem_list fun _ _ t ht hne => absurd (h t ht) hne

theorem covered_cons :
    Covered P (s :: rest) ↔
      (∀ o, s.offset ≤ o → o < s.offset + s.len → P o) ∧ Covered P rest :=
  forall_mem_cons

section Note

variable {full : Bool} {offset rxd : ℕ}

@[simp] theorem noteSack_length : (noteSack full offset rxd sacks).length = sacks.length := by
  induction sacks with
  | nil => rfl
  | cons s rest ih =>
    unfold noteSack
    split
    · rfl
    split
    · split
      · split
        · rfl
        · simp
      · rfl
    split
    · split
      · rfl
      · rfl
    · simp [ih]

/-- An entry in use starts where one did before, or where the new range does. -/
theorem noteSack_offset {t : Sack} (ht : t ∈ noteSack full offset rxd sacks) (hlen : t.len ≠ 0) :
    t.offset = offset ∨ ∃ s ∈ sacks, s.len ≠ 0 ∧ s.offset = t.offset := by
  induction sacks with
  | nil => simp [noteSack] at ht
  | cons s rest ih =>
    have hold : t ∈ s :: rest → ∃ old ∈ s :: rest, old.len ≠ 0 ∧ old.offset = t.offset :=
      fun hmem => ⟨t, hmem, hlen, rfl⟩
    have hjoined : ∀ s' : Sack, s'.offset = offset ∨ s'.offset = s.offset ∧ s.len ≠ 0 →
        t ∈ s' :: rest →
          t.offset = offset ∨ ∃ old ∈ s :: rest, old.len ≠ 0 ∧ old.offset = t.offset := by
      intro s' hs' hmem
      rcases mem_cons.mp hmem with rfl | hmem
      · rcases hs' with hnew | hsame
        · exact Or.inl hnew
        · exact Or.inr ⟨s, mem_cons_self, hsame.2, hsame.1.symm⟩
      · exact Or.inr (hold (mem_cons_of_mem s hmem))
    unfold noteSack at ht
    split at ht
    · exact hjoined _ (Or.inl rfl) ht
    rename_i hs
    split at ht
    · split at ht
      · split at ht
        · exact Or.inr (hold ht)
        · rcases mem_cons.mp ht with rfl | hmem
          · exact Or.inl rfl
          · exact Or.inr (hold (dropLast_subset _ hmem))
      · exact hjoined _ (Or.inl rfl) ht
    split at ht
    · split at ht
      · exact hjoined { s with len := offset + rxd - s.offset } (Or.inr ⟨rfl, hs⟩) ht
      · exact Or.inr (hold ht)
    rcases mem_cons.mp ht with rfl | hmem
    · exact Or.inr (hold mem_cons_self)
    · rcases ih hmem with hnew | ⟨s', hs', hne, hoffset⟩
      · exact Or.inl hnew
      · exact Or.inr ⟨s', mem_cons_of_mem s hs', hne, hoffset⟩

theorem noteSack_ordered (h : Ordered sacks) (hrxd : rxd ≠ 0) :
    Ordered (noteSack full offset rxd sacks) := by
  induction sacks with
  | nil => exact h
  | cons s rest ih =>
    obtain ⟨hhead, hrest⟩ := pairwise_cons.mp h
    unfold noteSack
    split
    · rename_i hs
      refine pairwise_cons.mpr ⟨?_, hrest⟩
      intro t ht hne
      exact absurd (ordered_cons_empty h hs t ht) hne
    rename_i hs
    split
    · rename_i hbefore
      split
      · split
        · exact h
        refine pairwise_cons.mpr ⟨?_, List.Pairwise.sublist (dropLast_sublist _) h⟩
        intro t ht hne
        refine ⟨hrxd, ?_⟩
        rcases mem_cons.mp (dropLast_subset _ ht) with rfl | hmem
        · exact hbefore
        · exact hbefore.trans (hhead t hmem hne).2
      · refine pairwise_cons.mpr ⟨?_, hrest⟩
        intro t ht hne
        exact ⟨hs, hbefore.trans (hhead t ht hne).2⟩
    rename_i hbefore
    split
    · split
      · refine pairwise_cons.mpr ⟨?_, hrest⟩
        intro t ht hne
        refine ⟨?_, (hhead t ht hne).2⟩
        change offset + rxd - s.offset ≠ 0
        omega
      · exact h
    · rename_i hbeyond
      refine pairwise_cons.mpr ⟨?_, ih hrest⟩
      intro t ht hne
      refine ⟨hs, ?_⟩
      rcases noteSack_offset ht hne with hnew | ⟨s', hs', hne', hoffset⟩
      · omega
      · have hlt := (hhead s' hs' hne').2
        omega

/-- Joining a range to the start of an entry keeps the entry's length, so that the
recorded range may be shorter than what is there. -/
theorem noteSack_covered (h : Covered P sacks) (hnew : ∀ o, offset ≤ o → o < offset + rxd → P o) :
    Covered P (noteSack full offset rxd sacks) := by
  induction sacks with
  | nil => exact h
  | cons s rest ih =>
    obtain ⟨hhead, hrest⟩ := covered_cons.mp h
    unfold noteSack
    split
    · exact covered_cons.mpr ⟨hnew, hrest⟩
    split
    · rename_i hbefore
      split
      · split
        · exact h
        · exact covered_cons.mpr ⟨hnew, fun t ht => h t (dropLast_subset _ ht)⟩
      rename_i hreach
      refine covered_cons.mpr ⟨?_, hrest⟩
      intro o hlow hhigh
      change offset ≤ o at hlow
      change o < offset + s.len at hhigh
      by_cases hin : o < s.offset
      · exact hnew o hlow (by omega)
      · exact hhead o (by omega) (by omega)
    rename_i hbefore
    split
    · split
      · rename_i htouch hgrow
        refine covered_cons.mpr ⟨?_, hrest⟩
        intro o hlow hhigh
        change s.offset ≤ o at hlow
        change o < s.offset + (offset + rxd - s.offset) at hhigh
        by_cases hin : o < s.offset + s.len
        · exact hhead o hlow hin
        · exact hnew o (by omega) (by omega)
      · exact h
    · exact covered_cons.mpr ⟨hhead, ih hrest⟩

end Note

section Consume

variable {len fuel : ℕ}

/-- The entry reaches beyond the stretch that is consumed. -/
def survives (len : ℕ) (s : Sack) : Bool := decide (s.len ≠ 0) && decide (len < s.offset + s.len)

/-- What is left of an entry that survives. -/
def shift (len : ℕ) (s : Sack) : Sack :=
  if len < s.offset then { s with offset := s.offset - len } else ⟨0, s.len - (len - s.offset)⟩

/-- The entries in use come first. -/
def UsedFirst (sacks : List Sack) : Prop := sacks.Pairwise fun s t => t.len ≠ 0 → s.len ≠ 0

theorem Ordered.usedFirst (h : Ordered sacks) : UsedFirst sacks :=
  List.Pairwise.imp (fun hst hne => (hst hne).1) h

theorem filter_survives_of_empty (h : ∀ t ∈ sacks, t.len = 0) :
    sacks.filter (survives len) = [] := by
  apply filter_eq_nil_iff.mpr
  intro t ht
  simp [survives, h t ht]

/-- Deleting an entry moves the rest up and clears the last place. -/
theorem usedFirst_moved_up (last : Sack) (h : UsedFirst (s :: rest)) :
    UsedFirst (rest ++ [{ last with len := 0 }]) := by
  apply pairwise_append.mpr
  refine ⟨(pairwise_cons.mp h).2, pairwise_singleton _ _, ?_⟩
  intro t _ u hu hne
  rw [mem_singleton.mp hu] at hne
  exact absurd rfl hne

def inUse (sacks : List Sack) : List Sack := sacks.filter fun s => decide (s.len ≠ 0)

theorem empty_of_inUse_nil (h : inUse sacks = []) : ∀ t ∈ sacks, t.len = 0 := by
  intro t ht
  have hnot := filter_eq_nil_iff.mp h t ht
  simpa using hnot

/-- The loop of sack_consume keeps what survives, shifted, and empties the rest. The
rounds are enough when there is one for every entry in use. -/
theorem sackConsumeFrom_eq (len : ℕ) (h : UsedFirst sacks) (hfuel : (inUse sacks).length ≤ fuel) :
    ∃ free, (∀ t ∈ free, t.len = 0) ∧ sackConsumeFrom len fuel sacks =
      (sacks.filter (survives len)).map (shift len) ++ free := by
  induction fuel generalizing sacks with
  | zero =>
    have hempty := empty_of_inUse_nil (eq_nil_of_length_eq_zero (Nat.le_zero.mp hfuel))
    refine ⟨sacks, hempty, ?_⟩
    rw [filter_survives_of_empty hempty]
    rfl
  | succ fuel ih =>
    cases sacks with
    | nil => exact ⟨[], by simp, rfl⟩
    | cons s rest =>
      obtain ⟨hhead, hrest⟩ := pairwise_cons.mp h
      unfold sackConsumeFrom
      split
      · rename_i hs
        have hempty : ∀ t ∈ s :: rest, t.len = 0 := by
          refine forall_mem_cons.mpr ⟨hs, fun t ht => ?_⟩
          by_contra hne
          exact hhead t ht hne hs
        refine ⟨s :: rest, hempty, ?_⟩
        rw [filter_survives_of_empty hempty]
        rfl
      rename_i hs
      have hcount : (inUse (s :: rest)).length = (inUse rest).length + 1 := by
        simp [inUse, hs]
      have hshorter : (inUse rest).length ≤ fuel := by omega
      split
      · rename_i hafter
        obtain ⟨free, hfree, heq⟩ := ih hrest hshorter
        have hlive : survives len s = true := by simp [survives, hs]; omega
        refine ⟨free, hfree, ?_⟩
        rw [heq, filter_cons_of_pos hlive, map_cons, cons_append, shift,
          if_pos hafter]
      rename_i hafter
      split
      · rename_i hacross
        obtain ⟨free, hfree, heq⟩ := ih hrest hshorter
        have hlive : survives len s = true := by simp [survives, hs]; omega
        refine ⟨free, hfree, ?_⟩
        rw [heq, filter_cons_of_pos hlive, map_cons, cons_append, shift,
          if_neg hafter]
      rename_i hacross
      have hgone : ¬ survives len s = true := by simp [survives, hacross]
      rw [filter_cons_of_neg hgone]
      cases hlast : rest.getLast? with
      | none =>
        rw [getLast?_eq_none_iff.mp hlast]
        exact ⟨[{ s with len := 0 }], by simp, rfl⟩
      | some last =>
        have hused : inUse (rest ++ [{ last with len := 0 }]) = inUse rest := by
          simp [inUse, filter_append]
        have hkept : (rest ++ [{ last with len := 0 }]).filter (survives len) =
            rest.filter (survives len) := by
          simp [filter_append, survives]
        have hmoved := ih (usedFirst_moved_up last h) (by rw [hused]; exact hshorter)
        rw [hkept] at hmoved
        exact hmoved

theorem survives_iff : survives len s = true ↔ s.len ≠ 0 ∧ len < s.offset + s.len := by
  simp [survives]

theorem shift_len_ne (h : survives len s = true) : (shift len s).len ≠ 0 := by
  have hlive := survives_iff.mp h
  unfold shift
  split
  · exact hlive.1
  · change s.len - (len - s.offset) ≠ 0
    omega

/-- Two survivors keep their order unless both reach across the point. -/
theorem shift_lt_iff {t : Sack} (hs : survives len s = true) (ht : survives len t = true)
    (hlt : s.offset < t.offset) :
    (shift len s).offset < (shift len t).offset ↔ ¬ (Crosses len s ∧ Crosses len t) := by
  have hslive := survives_iff.mp hs
  have htlive := survives_iff.mp ht
  unfold Crosses shift
  split
  · split
    · change s.offset - len < t.offset - len ↔ _
      omega
    · omega
  · split
    · change 0 < t.offset - len ↔ _
      omega
    · change 0 < 0 ↔ _
      omega

/-- Consuming keeps the table in order exactly when at most one entry reaches across. -/
theorem sackConsumeFrom_ordered_iff (h : Ordered sacks) (hfuel : (inUse sacks).length ≤ fuel) :
    Ordered (sackConsumeFrom len fuel sacks) ↔ OneCrosses len sacks := by
  obtain ⟨free, hfree, heq⟩ := sackConsumeFrom_eq len h.usedFirst hfuel
  rw [heq]
  have hsplit : Ordered ((sacks.filter (survives len)).map (shift len) ++ free) ↔
      sacks.Pairwise fun s t => survives len s = true → survives len t = true →
        (shift len s).offset < (shift len t).offset := by
    refine pairwise_append.trans ?_
    rw [pairwise_map, pairwise_filter]
    constructor
    · intro hall
      refine List.Pairwise.imp ?_ hall.1
      intro s t hst hs ht
      exact (hst hs ht (shift_len_ne ht)).2
    · intro hall
      refine ⟨List.Pairwise.imp ?_ hall, ordered_of_empty hfree, ?_⟩
      · intro s t hst hs ht _
        exact ⟨shift_len_ne hs, hst hs ht⟩
      · intro s _ t ht hne
        exact absurd (hfree t ht) hne
  rw [hsplit]
  constructor
  · intro hall
    refine List.Pairwise.imp₂ ?_ h hall
    rintro s t hst hlt ⟨hs, ht⟩
    have hslive : survives len s = true := survives_iff.mpr ⟨by unfold Crosses at hs; omega, hs.2⟩
    have htlive : survives len t = true := survives_iff.mpr ⟨by unfold Crosses at ht; omega, ht.2⟩
    have hoffset := (hst (survives_iff.mp htlive).1).2
    exact (shift_lt_iff hslive htlive hoffset).mp (hlt hslive htlive) ⟨hs, ht⟩
  · intro hall
    refine List.Pairwise.imp₂ ?_ h hall
    intro s t hst hnot hs ht
    exact (shift_lt_iff hs ht (hst (survives_iff.mp ht).1).2).mpr hnot

theorem sackConsumeFrom_covered {Q : ℕ → Prop} (h : Covered P sacks) (hfirst : UsedFirst sacks)
    (hfuel : (inUse sacks).length ≤ fuel) (hQ : ∀ o, P (len + o) → Q o) :
    Covered Q (sackConsumeFrom len fuel sacks) := by
  obtain ⟨free, hfree, heq⟩ := sackConsumeFrom_eq len hfirst hfuel
  rw [heq]
  intro t ht o hlow hhigh
  rcases mem_append.mp ht with hlive | hempty
  · obtain ⟨s, hs, rfl⟩ := mem_map.mp hlive
    obtain ⟨hmem, hsurvives⟩ := mem_filter.mp hs
    have hs := survives_iff.mp hsurvives
    apply hQ o
    unfold shift at hlow hhigh
    split at hlow
    · rw [if_pos ‹_›] at hhigh
      change s.offset - len ≤ o at hlow
      change o < s.offset - len + s.len at hhigh
      exact h s hmem (len + o) (by omega) (by omega)
    · rw [if_neg ‹_›] at hhigh
      change o < 0 + (s.len - (len - s.offset)) at hhigh
      exact h s hmem (len + o) (by omega) (by omega)
  · rw [hfree t hempty] at hhigh
    omega

end Consume

end Meshlink.SackTable
