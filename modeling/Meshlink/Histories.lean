import Mathlib

/-!
Properties of every entry of a history in view of the entries before it. A
history only grows, so such a property is checked once, when an entry is added.
-/
namespace Meshlink.Histories

open List

variable {α : Type}

/-- Every entry satisfies `P` together with the entries before it. -/
def Always (P : List α → α → Prop) (hist : List α) : Prop :=
  ∀ before x after, hist = before ++ x :: after → P before x

instance (P : List α → α → Prop) [∀ before x, Decidable (P before x)] (hist : List α) :
    Decidable (Always P hist) :=
  decidable_of_iff (∀ i : Fin hist.length, P (hist.take i) hist[i]) <| by
    constructor
    · rintro h before x after rfl
      have hi := h ⟨before.length, by simp⟩
      simpa using hi
    · intro h i
      exact h _ _ (hist.drop (i + 1)) (by simp)

variable (P : List α → α → Prop)

theorem Always.nil : Always P [] := by
  intro before x after heq
  simp at heq

theorem always_append (hist evs : List α) :
    Always P (hist ++ evs) ↔ Always P hist ∧ Always (fun before x => P (hist ++ before) x) evs := by
  constructor
  · intro h
    refine ⟨?_, ?_⟩
    · intro before x after heq
      exact h before x (after ++ evs) (by rw [heq]; simp)
    · intro before x after heq
      exact h (hist ++ before) x after (by rw [heq, append_assoc])
  · rintro ⟨hhist, hevs⟩ before x after heq
    rcases append_eq_append_iff.mp heq with ⟨mid, rfl, hsplit⟩ | ⟨mid, hleft, hright⟩
    · exact hevs mid x after hsplit
    cases mid with
    | nil =>
      have hnil := hevs [] x after (by simpa using hright.symm)
      rw [append_nil] at hleft
      simpa [hleft] using hnil
    | cons y mid =>
      simp only [cons_append, List.cons.injEq] at hright
      obtain ⟨rfl, -⟩ := hright
      exact hhist before x mid hleft

theorem Always.of_mem {P : List α → α → Prop} {hist : List α}
    (h : ∀ before x, before ⊆ hist → x ∈ hist → P before x) : Always P hist := by
  intro before x after heq
  apply h
  · rw [heq]
    exact subset_append_left _ _
  · rw [heq]
    simp

theorem Always.mono {P Q : List α → α → Prop} {hist : List α} (h : Always P hist)
    (himp : ∀ before x, P before x → Q before x) : Always Q hist :=
  fun before x after heq => himp before x (h before x after heq)

theorem always_singleton (x : α) : Always P [x] ↔ P [] x := by
  constructor
  · intro h
    exact h [] x [] rfl
  · intro h before y after heq
    cases before with
    | nil =>
      obtain ⟨rfl, -⟩ := List.cons.inj heq
      exact h
    | cons head tail => simp at heq

/-- What has to be checked when an entry is added. -/
theorem always_concat (hist : List α) (x : α) :
    Always P (hist ++ [x]) ↔ Always P hist ∧ P hist x := by
  rw [always_append, always_singleton, append_nil]

section Projections

variable {β : Type}

theorem flatMap_concat (f : α → List β) (hist : List α) (x : α) :
    (hist ++ [x]).flatMap f = hist.flatMap f ++ f x := by
  rw [flatMap_append, flatMap_singleton]

theorem filterMap_concat_none {f : α → Option β} {x : α} (hx : f x = none) (hist : List α) :
    (hist ++ [x]).filterMap f = hist.filterMap f := by
  rw [filterMap_append, filterMap_cons_none hx, filterMap_nil, append_nil]

theorem filterMap_concat_some {f : α → Option β} {x : α} {b : β} (hx : f x = some b)
    (hist : List α) : (hist ++ [x]).filterMap f = hist.filterMap f ++ [b] := by
  rw [filterMap_append, filterMap_cons_some hx, filterMap_nil]

/-- The first number that waits when numbers are given out and finished in turn. -/
theorem first_waiting {finished waiting : List ℕ} {id next : ℕ}
    (h : finished ++ id :: waiting = List.range next) :
    id = finished.length ∧ id < next ∧ id ∉ finished ∧ id ∉ waiting := by
  have hnodup : (finished ++ id :: waiting).Nodup := h ▸ nodup_range
  obtain ⟨-, hwaiting, hapart⟩ := nodup_append.mp hnodup
  have hfirst := congrArg (·[finished.length]?) h
  simp only [getElem?_append_right (Nat.le_refl _), Nat.sub_self,
    getElem?_cons_zero] at hfirst
  obtain ⟨hlt, hid⟩ := List.getElem?_eq_some_iff.mp hfirst.symm
  rw [getElem_range] at hid
  rw [length_range, hid] at hlt
  exact ⟨hid.symm, hlt, fun hmem => hapart id hmem id mem_cons_self rfl,
    (nodup_cons.mp hwaiting).1⟩

end Projections

/-- The selected values are pairwise different when each one is new where it occurs. -/
theorem nodup_filterMap_of_always {β : Type} (f : α → Option β) (hist : List α)
    (h : Always (fun before x => ∀ b, f x = some b → b ∉ before.filterMap f) hist) :
    (hist.filterMap f).Nodup := by
  induction hist using List.reverseRecOn with
  | nil => exact nodup_nil
  | append_singleton hist x ih =>
    obtain ⟨hhist, hx⟩ := (always_concat _ hist x).mp h
    rw [filterMap_append, nodup_append]
    refine ⟨ih hhist, ?_, ?_⟩
    · cases hfx : f x with
      | none => simp [hfx]
      | some b => simp [hfx]
    intro a ha b hb heq
    simp only [filterMap_cons, filterMap_nil] at hb
    cases hfx : f x with
    | none => simp [hfx] at hb
    | some c =>
      rw [hfx, mem_singleton] at hb
      exact hx c hfx (by rw [← hb, ← heq]; exact ha)

/-- An entry that satisfies `P` has not been followed by one that satisfies `Q`. -/
def Stands (P Q : α → Prop) (hist : List α) : Prop :=
  ∃ before x after, hist = before ++ x :: after ∧ P x ∧ ∀ y ∈ after, ¬ Q y

theorem not_stands_nil (P Q : α → Prop) : ¬ Stands P Q [] := by
  intro h
  obtain ⟨before, x, after, heq, _⟩ := h
  simp at heq

/-- What stands after one more entry is that entry, or has stood before it. -/
theorem stands_concat {P Q : α → Prop} {hist : List α} {x : α} (h : Stands P Q (hist ++ [x])) :
    P x ∨ (Stands P Q hist ∧ ¬ Q x) := by
  obtain ⟨before, y, after, heq, hy, hafter⟩ := h
  rcases eq_nil_or_concat after with rfl | ⟨rest, last, rfl⟩
  · obtain ⟨-, hlast⟩ := append_inj' heq rfl
    rw [(List.cons.inj hlast).1]
    exact Or.inl hy
  rw [concat_eq_append, ← cons_append, ← append_assoc] at heq
  obtain ⟨hhist, hlast⟩ := append_inj' heq rfl
  rw [(List.cons.inj hlast).1]
  rw [concat_eq_append] at hafter
  exact Or.inr ⟨⟨before, y, rest, hhist, hy, fun z hz => hafter z (mem_append_left _ hz)⟩,
    hafter last (mem_append_right _ (mem_singleton_self last))⟩

end Meshlink.Histories
