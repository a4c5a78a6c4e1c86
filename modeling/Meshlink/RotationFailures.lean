import Meshlink.StorageRules

/-!
The calls that can fail while the storage key is rotated, in three groups: those
that go unnoticed, those that are reported before anything was renamed, and the
late ones. Once current was renamed only late ones are left.
-/
namespace Meshlink.RotationFailures

open Commands Storage StorageRules

/-- A readdir that fails while the configuration is copied goes unnoticed, and so does one
that gives an entry without its type. -/
def Unnoticed (f : Failure) : Prop := f.op.call = .readdir ∧ f.op.path.head? = some "current"

/-- Failures that are reported before anything was renamed. -/
def Reported (f : Failure) : Prop :=
  (f.op.path.head? = some "current" ∧ f.op.call ≠ .readdir) ∨
    (f.op.path.head? = some "new" ∧ f.op.call ≠ .rename)

/-- Failures after current was renamed. -/
def Late (f : Failure) : Prop := ¬ Unnoticed f ∧ ¬ Reported f

theorem late_of_head {f : Failure} (hcurrent : f.op.path.head? ≠ some "current")
    (hnew : f.op.path.head? ≠ some "new") : Late f :=
  ⟨fun h => hcurrent h.2, fun h => h.elim (fun h => hcurrent h.1) fun h => hnew h.1⟩

/-- All calls on the path are late. -/
class LateAt (path : Path) : Prop where
  late : ∀ call unread, Late ⟨⟨call, path⟩, unread⟩

instance : LateAt [] := ⟨fun _ _ => late_of_head nofun nofun⟩

instance lateAt_old (rest : Path) : LateAt ("old" :: rest) where
  late _ _ := late_of_head (fun h => absurd (Option.some.inj h) (by decide))
    fun h => absurd (Option.some.inj h) (by decide)

instance (rest : Path) (name : String) : LateAt ("old" :: rest ++ [name]) := lateAt_old _

theorem late_renameNew : Late ⟨⟨.rename, ["new"]⟩, []⟩ := by
  refine ⟨fun h => absurd h.1 (by decide), fun h => ?_⟩
  rcases h with h | h
  · exact absurd (Option.some.inj h.1) (by decide)
  · exact h.2 rfl

/-- After the unnoticed failures there were only late ones. -/
def Tail (silent : List Failure) (w : World) : Prop :=
  (∀ f ∈ silent, f ∈ w.failures) ∧ ∀ f ∈ w.failures, f ∈ silent ∨ Late f

variable {e : Env} {silent : List Failure}

theorem tail_of_is {b : Base} {w : World} (h : Is b silent w) : Tail silent w := by
  unfold Tail
  rw [h.failures]
  exact ⟨fun _ hf => hf, fun _ hf => Or.inl hf⟩

theorem tail_of_eq {w w' : World} (h : Tail silent w) (heq : w'.failures = w.failures) :
    Tail silent w' := by
  unfold Tail
  rw [heq]
  exact h

theorem tail_snoc {w w' : World} {f : Failure} (h : Tail silent w) (hf : Late f)
    (heq : w'.failures = w.failures ++ [f]) : Tail silent w' := by
  unfold Tail
  rw [heq]
  refine ⟨fun g hg => List.mem_append_left _ (h.1 g hg), fun g hg => ?_⟩
  rcases List.mem_append.mp hg with hg | hg
  · exact h.2 g hg
  · rw [List.mem_singleton.mp hg]
    exact Or.inr hf

section Keeping

variable {α : Type} {path : Path} [hpath : LateAt path]

abbrev Trails (silent : List Failure) (x : Command World α) : Prop :=
  Keeping (Tail silent) (Tail silent) x

theorem trails_syscall {call : Call} {unread : Entries}
    {effect : World → Except Errno (α × World)} {lost : World → World}
    (heffect : ∀ w a w', effect w = .ok (a, w') → w'.failures = w.failures) :
    Trails silent (syscall e ⟨call, path⟩ unread effect lost) := by
  refine ⟨fun w hw => ?_⟩
  have houtcome : Tail silent (outcome e ⟨call, path⟩ unread effect lost w).2 := by
    unfold outcome
    cases hrun : effect w with
    | error errno => exact tail_of_eq hw rfl
    | ok result =>
      obtain ⟨a, w'⟩ := result
      by_cases hfails : e.fails w.ops ⟨call, path⟩ = true
      · simp only [if_pos hfails]
        exact tail_snoc hw (hpath.late call unread) rfl
      · simp only [if_neg hfails]
        exact tail_of_eq hw (heffect w a w' hrun)
  unfold syscall
  by_cases hkills : e.kills w.ops ⟨call, path⟩ = true
  · simp only [if_pos hkills]
    exact houtcome
  · simp only [if_neg hkills]
    exact houtcome

instance {call : Call} {value : Tree → Except Errno α} :
    Trails silent (inspect e call path value) := by
  refine trails_syscall fun w a w' hrun => ?_
  cases hvalue : value w.disk with
  | error errno =>
    rw [hvalue] at hrun
    cases hrun
  | ok a =>
    rw [hvalue] at hrun
    cases hrun
    rfl

instance {call : Call} {value : Tree → Except Errno Tree} :
    Trails silent (change e call path value) := by
  refine trails_syscall fun w a w' hrun => ?_
  cases hvalue : value w.disk with
  | error errno =>
    rw [hvalue] at hrun
    cases hrun
  | ok disk =>
    rw [hvalue] at hrun
    cases hrun
    rfl

instance (unread : Entries) : Trails silent (readdir e path unread) := by
  refine trails_syscall fun w a w' hrun => ?_
  cases unread with
  | nil => cases hrun
  | cons entry unread =>
    cases hrun
    rfl

instance {x : Command World (Except Errno α)} [Trails silent x] : Trails silent (succeeds x) :=
  Keeping.bind

instance : Trails silent (syncPath e path) := by
  unfold syncPath
  infer_instance

instance {del : Path → Command World Bool} (entries : Entries)
    [∀ name, LateAt (path ++ [name])] [∀ name, Trails silent (del (path ++ [name]))] :
    Trails silent (deltreeEntries e del path entries) := by
  induction entries with
  | nil => exact Keeping.bind
  | cons entry entries ih =>
    unfold deltreeEntries unlink
    infer_instance

instance (levels : ℕ) (rest : Path) : Trails silent (deltreeLevels e levels ("old" :: rest)) := by
  induction levels generalizing rest with
  | zero => exact Keeping.pure _
  | succ levels ih =>
    have hdel : ∀ name, Trails silent (deltreeLevels e levels ("old" :: rest ++ [name])) :=
      fun name => ih (rest ++ [name])
    unfold deltreeLevels opendir rmdir
    refine Keeping.of_bind fun result => ?_
    cases result with
    | error errno => exact Keeping.pure _
    | ok entries => exact Keeping.bind

instance : Trails silent (configDestroy e "old") := by
  unfold configDestroy stat unlink deltree
  refine Keeping.of_bind fun result => ?_
  cases result with
  | error errno => exact Keeping.pure _
  | ok _ => exact Keeping.bind

end Keeping

end Meshlink.RotationFailures
