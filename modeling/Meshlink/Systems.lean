import Mathlib

/-!
Runs of a system whose steps are a function of the state and an event. A
property that every step keeps under a condition on the event holds after every
run along which the condition is met.
-/
namespace Meshlink.Systems

variable {σ ε : Type}

/-- Every event of the run meets the condition in the state it happens in. -/
def Along (step : σ → ε → σ) (C : σ → ε → Prop) : σ → List ε → Prop
  | _, [] => True
  | s, ev :: evs => C s ev ∧ Along step C (step s ev) evs

variable {step : σ → ε → σ} {C D : σ → ε → Prop}

instance decidableAlong [∀ s ev, Decidable (C s ev)] :
    ∀ s evs, Decidable (Along step C s evs)
  | _, [] => .isTrue trivial
  | s, ev :: evs =>
    have := decidableAlong (step s ev) evs
    inferInstanceAs (Decidable (C s ev ∧ Along step C (step s ev) evs))

variable {s : σ}

theorem along_of_forall {P : ε → Prop} {evs : List ε} (hP : ∀ ev ∈ evs, P ev) :
    Along step (fun _ ev => P ev) s evs := by
  induction evs generalizing s with
  | nil => trivial
  | cons ev evs ih =>
    exact ⟨hP ev List.mem_cons_self, ih fun ev' h => hP ev' (List.mem_cons_of_mem ev h)⟩

theorem along_and {P : ε → Prop} {evs : List ε} (hC : Along step C s evs) (hP : ∀ ev ∈ evs, P ev) :
    Along step (fun s ev => C s ev ∧ P ev) s evs := by
  induction evs generalizing s with
  | nil => trivial
  | cons ev evs ih =>
    refine ⟨⟨hC.1, hP ev List.mem_cons_self⟩, ih hC.2 ?_⟩
    exact fun ev' h => hP ev' (List.mem_cons_of_mem ev h)

/-- The last event meets the condition in the state the others lead to. -/
theorem along_last {evs : List ε} {ev : ε} (hC : Along step C s (evs ++ [ev])) :
    C (evs.foldl step s) ev := by
  induction evs generalizing s with
  | nil => exact hC.1
  | cons _ evs ih => exact ih hC.2

/-- What every admitted step keeps holds at the end of the run. -/
theorem kept_along {I : σ → Prop} (hI : ∀ s ev, C s ev → I s → I (step s ev)) {evs : List ε}
    (hC : Along step C s evs) (hs : I s) : I (evs.foldl step s) := by
  induction evs generalizing s with
  | nil => exact hs
  | cons ev evs ih => exact ih hC.2 (hI s ev hC.1 hs)

/-- A condition that follows from an invariant is met along every run that keeps it. -/
theorem along_of_kept {I : σ → Prop} (hI : ∀ s ev, C s ev → I s → I (step s ev))
    (hD : ∀ s ev, C s ev → I s → D s ev) {evs : List ε} (hC : Along step C s evs) (hs : I s) :
    Along step D s evs := by
  induction evs generalizing s with
  | nil => trivial
  | cons ev evs ih => exact ⟨hD s ev hC.1 hs, ih hC.2 (hI s ev hC.1 hs)⟩

end Meshlink.Systems
