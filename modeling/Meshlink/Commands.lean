import Mathlib

/-!
Commands over a state: a computation that updates the state and returns a
value, or stops the process and leaves the state as it was at that point.
Specifications are triples with a postcondition for returning and one for
stopping; an invariant is kept when it serves as all three assertions. The
way a command moves through the state can also be described by a relation
whose steps it takes.
-/
namespace Meshlink.Commands

/-- `none` in the result means that the process has stopped. -/
def Command (σ α : Type) : Type := σ → Option α × σ

variable {σ α β : Type} {p : Prop}

instance : Monad (Command σ) where
  pure a := fun s => (some a, s)
  bind x f := fun s =>
    match x s with
    | (some a, s') => f a s'
    | (none, s') => (none, s')

def stop : Command σ α := fun s => (none, s)

def gets (f : σ → α) : Command σ α := fun s => (some (f s), s)

def update (f : σ → σ) : Command σ Unit := fun s => (some (), f s)

def when (c : Bool) (x : Command σ Unit) : Command σ Unit := if c then x else pure ()

def forEach : List α → (α → Command σ Unit) → Command σ Unit
  | [], _ => pure ()
  | a :: rest, f => do
    f a
    forEach rest f

instance : LawfulMonad (Command σ) := by
  refine LawfulMonad.mk' _ ?_ ?_ ?_
  · intro α x
    funext s
    change (match x s with
      | (some a, s') => (some a, s')
      | (none, s') => (none, s')) = x s
    rcases x s with ⟨value, s'⟩
    cases value with
    | none => rfl
    | some a => rfl
  · intro α β a f
    rfl
  · intro α β γ x f g
    funext s
    change (match (match x s with
      | (some a, s') => f a s'
      | (none, s') => (none, s')) with
      | (some b, s') => g b s'
      | (none, s') => (none, s')) = (match x s with
      | (some a, s') => (f a >>= g) s'
      | (none, s') => (none, s'))
    rcases x s with ⟨value, s'⟩
    cases value with
    | none => rfl
    | some a => rfl

variable {x y : Command σ α} {f : α → Command σ β} {c : Bool} {s s' : σ} {a : α}

theorem bind_of_some (h : x s = (some a, s')) : (x >>= f) s = f a s' := by
  change (match x s with
    | (some a, s') => f a s'
    | (none, s') => (none, s')) = f a s'
  rw [h]

theorem bind_of_none (h : x s = (none, s')) : (x >>= f) s = (none, s') := by
  change (match x s with
    | (some a, s') => f a s'
    | (none, s') => (none, s')) = (none, s')
  rw [h]

theorem bind_of_eq (h : x s = y s') : (x >>= f) s = (y >>= f) s' := by
  change (match x s with
    | (some a, s') => f a s'
    | (none, s') => (none, s')) = _
  rw [h]
  rfl

theorem gets_bind (g : σ → α) (f : α → Command σ β) (s : σ) : (gets g >>= f) s = f (g s) s := rfl

/-- A sequence returns what its second part does, from where the first one returned. -/
theorem returned_of_bind {t : σ} {b : β} (h : (x >>= f) s = (some b, t)) :
    ∃ a s', x s = (some a, s') ∧ f a s' = (some b, t) := by
  rcases hx : x s with ⟨_ | a, s'⟩
  · rw [bind_of_none hx] at h
    exact absurd h nofun
  · rw [bind_of_some hx] at h
    exact ⟨a, s', rfl, h⟩

theorem when_bind_of_true {x : Command σ Unit} {f : Unit → Command σ β} (h : c = true) :
    (when c x >>= f) = (x >>= f) := by
  rw [h]
  rfl

theorem when_bind_of_false {x : Command σ Unit} {f : Unit → Command σ β} (h : c = false) :
    (when c x >>= f) = f () := by
  rw [h]
  rfl

/-- The state a command leaves behind, whether it returned or stopped. -/
def after (x : Command σ α) (s : σ) : σ := (x s).2

theorem eq_of_value {value : Option α} (h : (x s).1 = value) : x s = (value, after x s) := by
  rw [← h]
  rfl

/-- From a state in `P` the command returns in `Q` or stops in `E`. -/
def Triple (E P : σ → Prop) (x : Command σ α) (Q : α → σ → Prop) : Prop :=
  ∀ s, P s →
    match x s with
    | (some a, s') => Q a s'
    | (none, s') => E s'

def Keeps (I : σ → Prop) (x : Command σ α) : Prop := Triple I I x (fun _ => I)

variable {E P P' I J : σ → Prop} {Q Q' : α → σ → Prop}

theorem Triple.pure (a : α) (h : ∀ s, P s → Q a s) :
    Triple E P (Pure.pure a : Command σ α) Q := h

theorem Triple.bind {R : β → σ → Prop} (hx : Triple E P x Q)
    (hf : ∀ a, Triple E (Q a) (f a) R) : Triple E P (x >>= f) R := by
  intro s hs
  have hstep := hx s hs
  change match (match x s with
    | (some a, s') => f a s'
    | (none, s') => (none, s')) with
    | (some a, s') => R a s'
    | (none, s') => E s'
  rcases hxs : x s with ⟨_ | a, s'⟩ <;> rw [hxs] at hstep
  · exact hstep
  · exact hf a s' hstep

/-- The rule for a first part with only one result. -/
theorem Triple.bind_eq {Q : σ → Prop} {R : β → σ → Prop}
    (hx : Triple E P x fun b s => b = a ∧ Q s) (hf : Triple E Q (f a) R) :
    Triple E P (x >>= f) R := by
  refine Triple.bind hx fun b => ?_
  rintro s ⟨rfl, hs⟩
  exact hf s hs

theorem Triple.stop (h : ∀ s, P s → E s) : Triple E P (stop : Command σ α) Q := h

theorem Triple.gets (f : σ → α) (h : ∀ s, P s → Q (f s) s) : Triple E P (gets f) Q := h

theorem Triple.read (f : σ → α) : Triple E P (Commands.gets f) (fun _ => P) := fun _ h => h

theorem Triple.gets_bind {g : σ → α} {R : β → σ → Prop}
    (hg : ∀ s, P s → g s = a) (hf : Triple E P (f a) R) : Triple E P (Commands.gets g >>= f) R := by
  intro s hs
  rw [show (Commands.gets g >>= f) s = f (g s) s from rfl, hg s hs]
  exact hf s hs

theorem Triple.update (f : σ → σ) {R : Unit → σ → Prop} (h : ∀ s, P s → R () (f s)) :
    Triple E P (update f) R := h

/-- The rule of consequence. -/
theorem Triple.mono (hx : Triple E P x Q) (hP : ∀ s, P' s → P s)
    (hQ : ∀ a s, Q a s → Q' a s) : Triple E P' x Q' := by
  intro s hs
  have hstep := hx s (hP s hs)
  rcases hxs : x s with ⟨_ | a, s'⟩ <;> rw [hxs] at hstep
  · exact hstep
  · exact hQ a s' hstep

theorem Triple.pre (hx : Triple E P x Q) (hP : ∀ s, P' s → P s) : Triple E P' x Q :=
  hx.mono hP fun _ _ hQ => hQ

theorem Triple.stops {E' : σ → Prop} (hx : Triple E P x Q) (hE : ∀ s, E s → E' s) :
    Triple E' P x Q := by
  intro s hs
  have hstep := hx s hs
  rcases hxs : x s with ⟨_ | a, s'⟩ <;> rw [hxs] at hstep
  · exact hE s' hstep
  · exact hstep

theorem Triple.and_keeps (hx : Triple E P x Q) (hkeeps : Keeps I x)
    (hI : ∀ s, P s → I s) : Triple E P x fun a s => Q a s ∧ I s := by
  intro s hs
  have hstep := hx s hs
  have hkept := hkeeps s (hI s hs)
  rcases hxs : x s with ⟨_ | a, s'⟩ <;> rw [hxs] at hstep hkept
  · exact hstep
  · exact ⟨hstep, hkept⟩

/-- A fact that does not mention the state can be used in the proof of a triple. -/
theorem Triple.assume (h : p → Triple E P x Q) : Triple E (fun s => P s ∧ p) x Q := by
  rintro s ⟨hs, hp⟩
  exact h hp s hs

theorem Triple.ite [Decidable p] (hx : p → Triple E P x Q)
    (hy : ¬ p → Triple E P y Q) : Triple E P (if p then x else y) Q := by
  split
  · exact hx ‹_›
  · exact hy ‹_›

/-- The part of the state that a precondition is about can be taken as fixed. -/
theorem Triple.of_fixed {τ : Type} {g : σ → τ} {p : τ → Prop}
    (h : ∀ v, p v → Triple E (fun s => g s = v) x Q) : Triple E (fun s => p (g s)) x Q :=
  fun s hs => h (g s) hs s rfl

theorem Triple.when {x : Command σ Unit} {R : Unit → σ → Prop}
    (hx : c = true → Triple E P x R) (hskip : c = false → ∀ s, P s → R () s) :
    Triple E P (when c x) R := by
  cases c with
  | true => exact hx rfl
  | false => exact hskip rfl

/-- A command that never stops ends in its postcondition. -/
theorem Triple.after {R : σ → Prop} (hx : Triple R P x fun _ => R) (s : σ) (hs : P s) :
    R (after x s) := by
  have hstep := hx s hs
  unfold Commands.after
  rcases hxs : x s with ⟨_ | a, s'⟩ <;> rw [hxs] at hstep
  · exact hstep
  · exact hstep

theorem Triple.of_after {R : σ → Prop} (h : ∀ s, P s → R (Commands.after x s)) :
    Triple R P x fun _ => R := by
  intro s hs
  have hafter := h s hs
  unfold Commands.after at hafter
  rcases hx : x s with ⟨_ | a, s'⟩ <;> rw [hx] at hafter
  · exact hafter
  · exact hafter

theorem Keeps.pure (a : α) : Keeps I (Pure.pure a : Command σ α) := fun _ h => h

theorem Keeps.stop : Keeps I (stop : Command σ α) := fun _ h => h

theorem Keeps.gets (f : σ → α) : Keeps I (gets f) := fun _ h => h

theorem Keeps.bind (hx : Keeps I x) (hf : ∀ a, Keeps I (f a)) : Keeps I (x >>= f) :=
  Triple.bind hx hf

theorem Keeps.update (f : σ → σ) (h : ∀ s, I s → I (f s)) : Keeps I (update f) := h

theorem Keeps.ite [Decidable p] (hx : p → Keeps I x) (hy : ¬ p → Keeps I y) :
    Keeps I (if p then x else y) :=
  Triple.ite hx hy

theorem Keeps.when {x : Command σ Unit} (hx : Keeps I x) : Keeps I (when c x) :=
  Triple.when (fun _ => hx) fun _ _ h => h

theorem Keeps.forEach {xs : List α} {f : α → Command σ Unit}
    (hf : ∀ a ∈ xs, Keeps I (f a)) : Keeps I (forEach xs f) := by
  induction xs with
  | nil => exact Keeps.pure ()
  | cons a rest ih =>
    apply Keeps.bind (hf a List.mem_cons_self)
    intro _
    exact ih fun b hb => hf b (List.mem_cons_of_mem a hb)

/-- A kept invariant holds afterwards, however the command ended. -/
theorem Keeps.after (hx : Keeps I x) (s : σ) (hs : I s) : I (after x s) := Triple.after hx s hs


theorem Triple.returns (hx : Triple E P x Q) (hs : P s) (h : x s = (some a, s')) : Q a s' := by
  have hstep := hx s hs
  rw [h] at hstep
  exact hstep

section Leaving

variable {τ : Type} {g : σ → τ}

/-- The command never changes the part of the state that `g` shows. -/
def Leaves (g : σ → τ) (x : Command σ α) : Prop := ∀ s, g (after x s) = g s

theorem leaves_iff : Leaves g x ↔ ∀ v, Keeps (fun s => g s = v) x := by
  constructor
  · exact fun hx v => Triple.of_after fun s hs => (hx s).trans hs
  · exact fun h s => (h (g s)).after s rfl

/-- What is only about that part of the state stays true. -/
theorem Leaves.keeps (hx : Leaves g x) (p : τ → Prop) : Keeps (fun s => p (g s)) x :=
  Triple.of_after fun s hs => (congrArg p (hx s)).mpr hs

theorem Leaves.pure (a : α) : Leaves g (Pure.pure a : Command σ α) := fun _ => rfl

theorem Leaves.stop : Leaves g (Commands.stop : Command σ α) := fun _ => rfl

theorem Leaves.gets (f : σ → α) : Leaves g (gets f) := fun _ => rfl

theorem Leaves.update {f : σ → σ} (h : ∀ s, g (f s) = g s) : Leaves g (update f) := h

theorem Leaves.bind (hx : Leaves g x) (hf : ∀ a, Leaves g (f a)) : Leaves g (x >>= f) :=
  leaves_iff.mpr fun v => Keeps.bind (leaves_iff.mp hx v) fun a => leaves_iff.mp (hf a) v

theorem Leaves.ite [Decidable p] (hx : Leaves g x) (hy : Leaves g y) :
    Leaves g (if p then x else y) :=
  leaves_iff.mpr fun v => Keeps.ite (fun _ => leaves_iff.mp hx v) fun _ => leaves_iff.mp hy v

theorem Leaves.when {x : Command σ Unit} (hx : Leaves g x) : Leaves g (when c x) :=
  leaves_iff.mpr fun v => Keeps.when (leaves_iff.mp hx v)

theorem Leaves.forEach {xs : List α} {f : α → Command σ Unit} (hf : ∀ a, Leaves g (f a)) :
    Leaves g (forEach xs f) :=
  leaves_iff.mpr fun v => Keeps.forEach fun a _ => leaves_iff.mp (hf a) v

end Leaving

section Reaching

open Relation

/-- Running the command from `s` changes the state by steps of `R`. -/
def Reaches (R : σ → σ → Prop) (x : Command σ α) (s : σ) : Prop :=
  ReflTransGen R s (Commands.after x s)

variable {R : σ → σ → Prop}

theorem Reaches.pure (a : α) (s : σ) : Reaches R (Pure.pure a : Command σ α) s := ReflTransGen.refl

theorem Reaches.stop (s : σ) : Reaches R (Commands.stop : Command σ α) s := ReflTransGen.refl

/-- What every step keeps is kept by any number of steps. -/
theorem kept_by_steps {I : σ → Prop} (hI : ∀ s s', I s → R s s' → I s') {s s' : σ}
    (hsteps : ReflTransGen R s s') (hs : I s) : I s' := by
  induction hsteps with
  | refl => exact hs
  | tail _ hlast ih => exact hI _ _ ih hlast

/-- The state in which a command returns is reached like the one it leaves. -/
theorem Reaches.returns (h : Reaches R x s) (hx : x s = (some a, s')) : ReflTransGen R s s' := by
  unfold Reaches Commands.after at h
  rw [hx] at h
  exact h

/-- The state between the two commands need not be one that steps lead to. -/
theorem Reaches.through
    (hf : ∀ a s', x s = (some a, s') → ReflTransGen R s (Commands.after (f a) s'))
    (hstop : ∀ s', x s = (none, s') → ReflTransGen R s s') : Reaches R (x >>= f) s := by
  unfold Reaches Commands.after
  rcases hx : x s with ⟨_ | a, s'⟩
  · rw [bind_of_none hx]
    exact hstop s' hx
  · rw [bind_of_some hx]
    exact hf a s' hx

theorem Reaches.bind (hx : Reaches R x s)
    (hf : ∀ a s', x s = (some a, s') → Reaches R (f a) s') : Reaches R (x >>= f) s := by
  refine Reaches.through (fun a s' hxs => (hx.returns hxs).trans (hf a s' hxs)) fun s' hxs => ?_
  unfold Reaches Commands.after at hx
  rw [hxs] at hx
  exact hx

/-- Only the value is changed after the command. -/
theorem Reaches.bind_pure (hx : Reaches R x s) (f : α → β) :
    Reaches R (x >>= fun a => Pure.pure (f a)) s :=
  Reaches.bind hx fun a s' _ => Reaches.pure (f a) s'

theorem Reaches.update_bind {f : σ → σ} {g : Unit → Command σ β}
    (hf : ReflTransGen R s (f s)) (hg : Reaches R (g ()) (f s)) :
    Reaches R (Commands.update f >>= g) s :=
  ReflTransGen.trans hf hg

theorem Reaches.gets_bind {g : σ → α} (h : Reaches R (f (g s)) s) :
    Reaches R (Commands.gets g >>= f) s := h

theorem Reaches.ite [Decidable p] (hx : p → Reaches R x s)
    (hy : ¬ p → Reaches R y s) : Reaches R (if p then x else y) s := by
  split
  · exact hx ‹_›
  · exact hy ‹_›

/-- The rule for an early return. -/
theorem Reaches.unless [Decidable p] {a : α} (h : ¬ p → Reaches R x s) :
    Reaches R (if p then Pure.pure a else x) s :=
  Reaches.ite (fun _ => Reaches.pure a s) h

theorem Reaches.when {x : Command σ Unit} (h : c = true → Reaches R x s) :
    Reaches R (Commands.when c x) s := by
  cases c with
  | true => exact h rfl
  | false => exact Reaches.pure () s

theorem Reaches.forEach {xs : List α} {f : α → Command σ Unit}
    (hf : ∀ a ∈ xs, ∀ s, Reaches R (f a) s) (s : σ) : Reaches R (Commands.forEach xs f) s := by
  induction xs generalizing s with
  | nil => exact Reaches.pure () s
  | cons a rest ih =>
    apply Reaches.bind (hf a List.mem_cons_self s)
    intro _ s' _
    exact ih (fun b hb => hf b (List.mem_cons_of_mem a hb)) s'

end Reaching

section Keeping

/-- An invariant that the command keeps, for commands whose parts all keep it. -/
class Keeping (E I : σ → Prop) (x : Command σ α) : Prop where
  keeps : Triple E I x fun _ => I

instance Keeping.pure (a : α) : Keeping E I (Pure.pure a : Command σ α) := ⟨fun _ h => h⟩

instance Keeping.gets (f : σ → α) : Keeping E I (gets f) := ⟨fun _ h => h⟩

instance Keeping.bind [hx : Keeping E I x] [hf : ∀ a, Keeping E I (f a)] : Keeping E I (x >>= f) :=
  ⟨Triple.bind hx.keeps fun a => (hf a).keeps⟩

theorem Keeping.of_ite [Decidable p] (hx : p → Keeping E I x)
    (hy : ¬ p → Keeping E I y) : Keeping E I (if p then x else y) :=
  ⟨Triple.ite (fun h => (hx h).keeps) fun h => (hy h).keeps⟩

instance Keeping.ite {p : Prop} [Decidable p] [hx : Keeping E I x] [hy : Keeping E I y] :
    Keeping E I (if p then x else y) :=
  Keeping.of_ite (fun _ => hx) fun _ => hy

instance Keeping.when {x : Command σ Unit} [hx : Keeping E I x] : Keeping E I (when c x) :=
  Keeping.of_ite (fun _ => hx) fun _ => Keeping.pure ()

instance Keeping.forEach {xs : List α} {f : α → Command σ Unit} [hf : ∀ a, Keeping E I (f a)] :
    Keeping E I (forEach xs f) := by
  induction xs with
  | nil => exact Keeping.pure ()
  | cons a rest ih => exact Keeping.bind

theorem Keeping.of_bind [hx : Keeping E I x] (hf : ∀ a, Keeping E I (f a)) :
    Keeping E I (x >>= f) :=
  Keeping.bind

/-- What is read from the state comes from a state in which the invariant holds. -/
theorem Keeping.gets_bind {g : σ → α}
    (hf : ∀ s, I s → Keeping E I (f (g s))) : Keeping E I (Commands.gets g >>= f) :=
  ⟨fun s hs => (hf s hs).keeps s hs⟩

end Keeping

section Returning

/-- The command never stops the process. -/
abbrev Returns (x : Command σ α) : Prop := Keeping (fun _ => False) (fun _ => True) x

theorem Returns.returns [hx : Returns x] (s : σ) : ∃ a, x s = (some a, after x s) := by
  have hrun := hx.keeps s trivial
  unfold Commands.after
  rcases hxs : x s with ⟨_ | a, s'⟩ <;> rw [hxs] at hrun
  · exact hrun.elim
  · exact ⟨a, rfl⟩

instance Returns.update (f : σ → σ) : Returns (update f) := ⟨fun _ _ => trivial⟩

/-- After a command that returns, the rest is run in the state it has left. -/
theorem after_bind (h : x s = (some a, s')) : after (x >>= f) s = after (f a) s' := by
  unfold Commands.after
  rw [bind_of_some h]

/-- Changing the value that a command gives does not change the state. -/
theorem after_bind_pure (x : Command σ α) (f : α → β) (s : σ) :
    after (x >>= fun a => Pure.pure (f a)) s = after x s := by
  unfold Commands.after
  rcases hx : x s with ⟨_ | a, s'⟩
  · rw [bind_of_none hx]
  · rw [bind_of_some hx]
    rfl

/-- The state after a sequence whose first part gives no value. -/
theorem after_then (x : Command σ Unit) [Returns x] (f : Unit → Command σ β) (s : σ) :
    after (x >>= f) s = after (f ()) (after x s) := by
  obtain ⟨_, hrun⟩ := Returns.returns (x := x) s
  exact after_bind hrun

theorem after_forEach_cons {a : α} {rest : List α} {f : α → Command σ Unit} [Returns (f a)]
    (s : σ) : after (forEach (a :: rest) f) s = after (forEach rest f) (after (f a) s) :=
  after_then (f a) _ s

end Returning

end Meshlink.Commands
