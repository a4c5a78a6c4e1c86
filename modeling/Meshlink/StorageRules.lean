import Meshlink.Storage

/-!
Rules for the storage code. A piece of code does its work, or a call fails that
is blamed for it, or the process is killed on the way; in the last two cases the
disk is left in a state that is described beforehand.
-/
namespace Meshlink.StorageRules

open Commands Storage

/-- The world without the counts and the record of failures. -/
structure Base where
  disk : Tree
  stream : Option (Path × Bytes)
  configKey : Option Bytes
  renamed : List Path
  closed : List Path

def base (w : World) : Base := ⟨w.disk, w.stream, w.configKey, w.renamed, w.closed⟩

structure Is (b : Base) (fs : List Failure) (w : World) : Prop where
  base : base w = b
  failures : w.failures = fs

def Killed (e : Env) : Prop := ∃ n op, e.kills n op = true

/-- No call fails, and readdir knows all types. -/
structure Faultless (e : Env) : Prop where
  calls : ∀ n op, e.fails n op = false
  types : ∀ n path, e.untyped n path = false

theorem not_faultless {e : Env} {n : ℕ} {op : Op} (h : e.fails n op = true) : ¬ Faultless e := by
  intro hfaultless
  rw [hfaultless.calls] at h
  cases h

section Rules

variable (e : Env) (bad : Failure → Prop) (Mid : Base → Prop) {errno : Errno}

def Dying (w : World) : Prop := Killed e ∧ Mid (base w)

def Failing (w : World) : Prop := Mid (base w) ∧ ∃ f ∈ w.failures, bad f

variable {α β : Type}

/-- From `P` the code returns in `Q`, or it returns `bot` after a bad failure. -/
def Does (bot : α) (P : World → Prop) (x : Command World α) (Q : α → World → Prop) : Prop :=
  Triple (Dying e Mid) P x fun a w => Q a w ∨ a = bot ∧ Failing bad Mid w

variable {e bad Mid} {P P' : World → Prop} {Q Q' : α → World → Prop} {bot : α} {bot' : β}

theorem Does.of_triple {x : Command World α} (h : Triple (Dying e Mid) P x Q) :
    Does e bad Mid bot P x Q :=
  Triple.mono h (fun _ hw => hw) fun _ _ hw => Or.inl hw

theorem Does.pure (a : α) (h : ∀ w, P w → Q a w) : Does e bad Mid bot P (Pure.pure a) Q :=
  Triple.pure a fun w hw => Or.inl (h w hw)

variable {R : β → World → Prop} {x : Command World Bool} {a : α}

theorem Does.gets_bind {g : World → α} {f : α → Command World β} (hg : ∀ w, P w → g w = a)
    (hf : Does e bad Mid bot' P (f a) R) : Does e bad Mid bot' P (Commands.gets g >>= f) R :=
  Triple.gets_bind hg hf

theorem Does.mono {x : Command World α} (hx : Does e bad Mid bot P x Q) (hP : ∀ w, P' w → P w)
    (hQ : ∀ a w, Q a w → Q' a w) : Does e bad Mid bot P' x Q' :=
  Triple.mono hx hP fun a w => Or.imp_left (hQ a w)

/-- After a failure the rest of the code has to report it. -/
theorem Does.bind {x : Command World α} {f : α → Command World β} (hx : Does e bad Mid bot P x Q)
    (hf : ∀ a, Does e bad Mid bot' (Q a) (f a) R)
    (hbot : Triple (Dying e Mid) (Failing bad Mid) (f bot)
      fun b w => b = bot' ∧ Failing bad Mid w) :
    Does e bad Mid bot' P (x >>= f) R := by
  refine Triple.bind hx fun a => ?_
  intro w hw
  rcases hw with hgood | ⟨rfl, hfailing⟩
  · exact hf a w hgood
  have hend := hbot w hfailing
  cases hrun : f a w with
  | mk result w' =>
    rw [hrun] at hend
    cases result with
    | none => exact hend
    | some b => exact Or.inr hend

variable {Q : World → Prop}

/-- The same when there is only one good result. -/
theorem Does.bind_eq {x : Command World α} {f : α → Command World β}
    (hx : Does e bad Mid bot P x fun result w => result = a ∧ Q w)
    (hf : Does e bad Mid bot' Q (f a) R)
    (hbot : Triple (Dying e Mid) (Failing bad Mid) (f bot)
      fun b w => b = bot' ∧ Failing bad Mid w) :
    Does e bad Mid bot' P (x >>= f) R := by
  refine Does.bind hx (fun result => ?_) hbot
  intro w hw
  obtain ⟨rfl, hw⟩ := hw
  exact hf w hw

/-- The early return after a call that did not succeed. -/
theorem Does.unless {y : Command World β}
    (hx : Does e bad Mid false P x fun ok w => ok = true ∧ Q w) (hy : Does e bad Mid bot' Q y R) :
    Does e bad Mid bot' P (x >>= fun ok => if (!ok) = true then Pure.pure bot' else y) R :=
  Does.bind_eq hx hy fun _ hw => ⟨rfl, hw⟩

theorem Does.when {y : Command World β} (hx : Does e bad Mid false P x fun ok w => ok = true ∧ Q w)
    (hy : Does e bad Mid bot' Q y R) :
    Does e bad Mid bot' P (x >>= fun ok => if ok = true then y else Pure.pure bot') R :=
  Does.bind_eq hx hy fun _ hw => ⟨rfl, hw⟩

/-- The same with a call on the way out. -/
theorem Does.unlessThen {γ : Type} {y : Command World β} {z : Command World γ}
    (hx : Does e bad Mid false P x fun ok w => ok = true ∧ Q w)
    (hz : Triple (Dying e Mid) (Failing bad Mid) z fun _ w => Failing bad Mid w)
    (hy : Does e bad Mid bot' Q y R) :
    Does e bad Mid bot' P (x >>= fun ok =>
      if (!ok) = true then z >>= fun _ => Pure.pure bot' else y) R :=
  Does.bind_eq hx hy (Triple.bind hz fun _ _ hw => ⟨rfl, hw⟩)

theorem Does.succeeds {x : Command World (Except Errno α)}
    (hx : Does e bad Mid (.error .other) P x fun result w => result = .ok a ∧ Q w) :
    Does e bad Mid false P (Storage.succeeds x) fun ok w => ok = true ∧ Q w := by
  refine Does.bind hx (fun result => ?_) (fun w hw => ⟨rfl, hw⟩)
  refine Does.pure _ ?_
  rintro w ⟨rfl, hw⟩
  exact ⟨rfl, hw⟩

theorem succeeds_exact {E A B : World → Prop} {x : Command World (Except Errno α)}
    (hx : Triple E P x fun result w => result = .ok a ∧ A w ∨ result = .error errno ∧ B w) :
    Triple E P (Storage.succeeds x) fun ok w => ok = true ∧ A w ∨ ok = false ∧ B w := by
  refine Triple.bind hx fun result => Triple.pure _ ?_
  rintro w (⟨rfl, hw⟩ | ⟨rfl, hw⟩)
  · exact Or.inl ⟨rfl, hw⟩
  · exact Or.inr ⟨rfl, hw⟩

/-- Code that goes on differently after a success and after a failure. -/
theorem branch {E A B : World → Prop} {f : Bool → Command World β}
    (hx : Triple E P x fun ok w => ok = true ∧ A w ∨ ok = false ∧ B w)
    (htrue : Triple E A (f true) R) (hfalse : Triple E B (f false) R) : Triple E P (x >>= f) R := by
  refine Triple.bind hx fun ok => ?_
  intro w hw
  rcases hw with ⟨rfl, hA⟩ | ⟨rfl, hB⟩
  · exact htrue w hA
  · exact hfalse w hB

theorem succeeds_error {E B : World → Prop} {x : Command World (Except Errno α)}
    (hx : Triple E P x fun result w => result = .error errno ∧ B w) :
    Triple E P (Storage.succeeds x) fun ok w => ok = false ∧ B w := by
  refine Triple.bind hx fun result => Triple.pure _ ?_
  rintro w ⟨rfl, hw⟩
  exact ⟨rfl, hw⟩

section Calls

variable {op : Op} {unread : Entries} {effect : World → Except Errno (α × World)}
variable {call : Call} {path : Path} {value : Tree → Except Errno α}

  {lost : World → World} {b b' : Base} {fs : List Failure} {a : α}

/-- A call is killed only after it has had its effect. -/
theorem triple_syscall {Q : Except Errno α → World → Prop}
    (h : ∀ w, P w → Mid (base (outcome e op unread effect lost w).2) ∧
      Q (outcome e op unread effect lost w).1 (outcome e op unread effect lost w).2) :
    Triple (Dying e Mid) P (syscall e op unread effect lost) Q := by
  intro w hw
  unfold syscall
  by_cases hkills : e.kills w.ops op = true
  · simp only [if_pos hkills]
    exact ⟨⟨_, _, hkills⟩, (h w hw).1⟩
  · simp only [if_neg hkills]
    exact (h w hw).2

/-- A call that can succeed does so, or it is to blame. -/
theorem does_syscall
    (heffect : ∀ w, base w = b →
      ∃ w', effect w = .ok (a, w') ∧ base w' = b' ∧ w'.failures = w.failures)
    (hlost : ∀ w, base w = b → e.fails w.ops op = true → Mid (base (lost w))) (hmid : Mid b')
    (hbad : ∀ n, e.fails n op = true → bad ⟨op, unread⟩) :
    Does e bad Mid (.error .other) (Is b fs) (syscall e op unread effect lost)
      fun result w => result = .ok a ∧ Is b' fs w := by
  refine triple_syscall fun w hw => ?_
  obtain ⟨w', hrun, hbase, hfailures⟩ := heffect w hw.base
  unfold outcome
  rw [hrun]
  by_cases hfails : e.fails w.ops op = true
  · simp only [if_pos hfails]
    have hmid' := hlost w hw.base hfails
    exact ⟨hmid', Or.inr ⟨trivial, hmid', _,
      List.mem_append_right _ (List.mem_singleton_self _), hbad _ hfails⟩⟩
  · simp only [if_neg hfails]
    rw [← hbase] at hmid
    exact ⟨hmid, Or.inl ⟨trivial, hbase, hfailures.trans hw.failures⟩⟩

/-- A call that cannot succeed changes nothing. -/
theorem syscall_error (heffect : ∀ w, base w = b → effect w = .error errno) (hmid : Mid b) :
    Triple (Dying e Mid) (Is b fs) (syscall e op unread effect lost)
      fun result w => result = .error errno ∧ Is b fs w := by
  refine triple_syscall fun w hw => ?_
  unfold outcome
  rw [heffect w hw.base]
  rw [← hw.base] at hmid
  exact ⟨hmid, rfl, hw.base, hw.failures⟩

/-- A failure of a call that leaves nothing behind but its record. -/
theorem syscall_exact
    (heffect : ∀ w, base w = b →
      ∃ w', effect w = .ok (a, w') ∧ base w' = b' ∧ w'.failures = w.failures)
    (hmid : Mid b) (hmid' : Mid b') :
    Triple (Dying e Mid) (Is b fs) (syscall e op unread effect id) fun result w =>
      result = .ok a ∧ Is b' fs w ∨
        result = .error .other ∧ Is b (fs ++ [⟨op, unread⟩]) w ∧ ∃ n, e.fails n op = true := by
  refine triple_syscall fun w hw => ?_
  obtain ⟨w', hrun, hbase, hfailures⟩ := heffect w hw.base
  unfold outcome
  rw [hrun]
  by_cases hfails : e.fails w.ops op = true
  · simp only [if_pos hfails]
    rw [← hw.base] at hmid
    refine ⟨hmid, Or.inr ⟨trivial, ⟨hw.base, ?_⟩, _, hfails⟩⟩
    rw [← hw.failures]
  · simp only [if_neg hfails]
    rw [← hbase] at hmid'
    exact ⟨hmid', Or.inl ⟨trivial, hbase, hfailures.trans hw.failures⟩⟩

theorem does_inspect (hvalue : value b.disk = .ok a) (hmid : Mid b)
    (hbad : ∀ n, e.fails n ⟨call, path⟩ = true → bad ⟨⟨call, path⟩, []⟩) :
    Does e bad Mid (.error .other) (Is b fs) (inspect e call path value)
      fun result w => result = .ok a ∧ Is b fs w := by
  refine does_syscall (fun w hw => ⟨w, ?_, hw, rfl⟩) (fun w hw _ => ?_) hmid hbad
  · subst hw
    rw [show value w.disk = .ok a from hvalue]
    rfl
  · rw [← hw] at hmid
    exact hmid

theorem inspect_error (hvalue : value b.disk = .error errno) (hmid : Mid b) :
    Triple (Dying e Mid) (Is b fs) (inspect e call path value)
      fun result w => result = .error errno ∧ Is b fs w := by
  refine syscall_error (fun w hw => ?_) hmid
  subst hw
  rw [show value w.disk = .error errno from hvalue]
  rfl

theorem does_change {value : Tree → Except Errno Tree} {disk : Tree}
    (hvalue : value b.disk = .ok disk) (hmid : Mid b) (hmid' : Mid {b with disk := disk})
    (hbad : ∀ n, e.fails n ⟨call, path⟩ = true → bad ⟨⟨call, path⟩, []⟩) :
    Does e bad Mid (.error .other) (Is b fs) (change e call path value)
      fun result w => result = .ok () ∧ Is {b with disk := disk} fs w := by
  refine does_syscall (fun w hw => ⟨{w with disk := disk}, ?_, ?_, rfl⟩) (fun w hw _ => ?_)
    hmid' hbad
  · subst hw
    rw [show value w.disk = .ok disk from hvalue]
    rfl
  · subst hw
    rfl
  · rw [← hw] at hmid
    exact hmid

theorem change_exact {value : Tree → Except Errno Tree} {disk : Tree}
    (hvalue : value b.disk = .ok disk) (hmid : Mid b) (hmid' : Mid {b with disk := disk}) :
    Triple (Dying e Mid) (Is b fs) (change e call path value) fun result w =>
      result = .ok () ∧ Is {b with disk := disk} fs w ∨ result = .error .other ∧
        Is b (fs ++ [⟨⟨call, path⟩, []⟩]) w ∧ ∃ n, e.fails n ⟨call, path⟩ = true := by
  refine syscall_exact (fun w hw => ⟨{w with disk := disk}, ?_, ?_, rfl⟩) hmid hmid'
  · subst hw
    rw [show value w.disk = .ok disk from hvalue]
    rfl
  · subst hw
    rfl

theorem change_error {value : Tree → Except Errno Tree}
    (hvalue : value b.disk = .error errno) (hmid : Mid b) :
    Triple (Dying e Mid) (Is b fs) (change e call path value)
      fun result w => result = .error errno ∧ Is b fs w := by
  refine syscall_error (fun w hw => ?_) hmid
  subst hw
  rw [show value w.disk = .error errno from hvalue]
  rfl

/-- A call that is made on the way out after a failure may end in any way. -/
theorem after_failure
    (heffect : ∀ w a w', effect w = .ok (a, w') →
      w'.failures = w.failures ∧ (Mid (base w) → Mid (base w')))
    (hlost : ∀ w, Mid (base w) → Mid (base (lost w))) :
    Triple (Dying e Mid) (Failing bad Mid) (syscall e op unread effect lost)
      fun _ w => Failing bad Mid w := by
  refine triple_syscall ?_
  rintro w ⟨hmid, f, hf, hbad⟩
  suffices houtcome : Failing bad Mid (outcome e op unread effect lost w).2 from
    ⟨houtcome.1, houtcome⟩
  unfold outcome
  cases hrun : effect w with
  | error errno => exact ⟨hmid, f, hf, hbad⟩
  | ok result =>
    obtain ⟨a, w'⟩ := result
    obtain ⟨hfailures, hmid'⟩ := heffect w a w' hrun
    by_cases hfails : e.fails w.ops op = true
    · simp only [if_pos hfails]
      exact ⟨hlost w hmid, f, List.mem_append_left _ hf, hbad⟩
    · simp only [if_neg hfails]
      refine ⟨hmid' hmid, f, ?_, hbad⟩
      rwa [← hfailures] at hf

theorem inspect_after_failure : Triple (Dying e Mid) (Failing bad Mid) (inspect e call path value)
      fun _ w => Failing bad Mid w := by
  refine after_failure ?_ fun _ hmid => hmid
  intro w a w' hrun
  cases hvalue : value w.disk with
  | error errno =>
    rw [hvalue] at hrun
    cases hrun
  | ok b =>
    rw [hvalue] at hrun
    cases hrun
    exact ⟨rfl, fun hmid => hmid⟩

end Calls

end Rules

end Meshlink.StorageRules
