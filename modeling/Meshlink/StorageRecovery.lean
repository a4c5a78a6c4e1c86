import Meshlink.KeyRotation

/-!
Opening a configuration base when nothing fails. What is found there and which
sub-directory is taken is a function of the table of sub-directories; the rest
of the development looks at crashes through that function.
-/
namespace Meshlink.StorageRecovery

open Function Commands FileTree Storage StorageRules DirectoryRemoval ConfBase
open Packmsg (configVersion getUint32)

/-- No call fails and the process is not killed. -/
structure Calm (e : Env) : Prop where
  fails : ∀ n op, e.fails n op = false
  kills : ∀ n op, e.kills n op = false

section Tables

variable (c : Cipher) (key : Bytes) (f : Format) (d : String → Option Tree) (node : Option Tree)

def hasMain : Bool := (node.bind fun node => get node ["meshlink.conf"]).isSome

/-- The contents of a file of a sub-directory. -/
def readIn (path : Path) : Option Bytes :=
  (node.bind fun node => fileAt node path).bind (decode c (some key))

def fits : Bool :=
  (readIn c key node ["meshlink.conf"]).any fun config =>
    (getUint32 (some config)).1 == configVersion

/-- Whether there is a configuration at all. -/
def found : Bool := hasMain (d "current") || hasMain (d "new") || hasMain (d "old")

def cleaned : String → Option Tree := Function.update (Function.update d "old" none) "new" none

/-- The table after the base was looked at. -/
def settled : String → Option Tree :=
  if fits c key (d "current") then cleaned d
  else if fits c key (d "new") then cleaned (renamedTo d "new" "current")
  else if fits c key (d "old") then cleaned (renamedTo d "old" "current")
  else d

/-- Whether the main configuration and the own host file can be read. -/
def valid : Bool :=
  (readIn c key node ["meshlink.conf"]).any fun config => (f.mainName config).any fun name =>
    (readIn c key node ["hosts", name]).any (f.hostOk name)

def opening : Opened :=
  if !found d then .created
  else if valid c key f (settled c key d "current") then .opened else .failed

end Tables

section Reading

variable {c : Cipher} {e : Env} {key : Bytes} {d : String → Option Tree} {α : Type}

/-- The table and the key in memory. -/
def Stands (d : String → Option Tree) (key : Bytes) (w : World) : Prop :=
  Layout w.disk d ∧ w.configKey = some key

/-- The code returns `a` and ends in `Q`. -/
def Yields (P : World → Prop) (x : Command World α) (a : α) (Q : World → Prop) : Prop :=
  Triple (fun _ => False) P x fun result w => result = a ∧ Q w

theorem Yields.pure {P : World → Prop} (a : α) : Yields P (Pure.pure a) a P := fun _ hw => ⟨rfl, hw⟩

theorem inspect_calm (he : Calm e) (call : Call) (path : Path) (value : Tree → Except Errno α)
    (w : World) :
    inspect e call path value w = (some (value w.disk), {w with ops := w.ops + 1}) := by
  simp only [inspect, syscall, outcome, he.kills, he.fails]
  cases value w.disk with
  | error errno => rfl
  | ok a => rfl

theorem inspect_runs (he : Calm e) {call : Call} {path : Path} {value : Tree → Except Errno α}
    {r : Except Errno α} (hvalue : ∀ disk, Layout disk d → value disk = r) :
    Yields (Stands d key) (inspect e call path value) r (Stands d key) := by
  intro w hw
  rw [inspect_calm he]
  exact ⟨hvalue w.disk hw.1, hw⟩

theorem succeeds_runs (he : Calm e) {call : Call} {path : Path} {value : Tree → Except Errno α}
    {ok : Bool} (hvalue : ∀ disk, Layout disk d → (value disk).isOk = ok) :
    Yields (Stands d key) (succeeds (inspect e call path value)) ok (Stands d key) := by
  intro w hw
  have hrun : succeeds (inspect e call path value) w =
      (some (value w.disk).isOk, {w with ops := w.ops + 1}) :=
    bind_of_some (inspect_calm he call path value w)
  rw [hrun]
  exact ⟨hvalue w.disk hw.1, hw⟩

theorem get_below {disk : Tree} (h : Layout disk d) (subdir : String) (path : Path) :
    get disk (subdir :: path) = (d subdir).bind fun node => get node path := by
  rw [← List.singleton_append, get_append, h.entry]

theorem fileAt_below {disk : Tree} (h : Layout disk d) (subdir : String) (path : Path) :
    fileAt disk (subdir :: path) = (d subdir).bind fun node => fileAt node path := by
  unfold fileAt
  rw [get_below h]
  cases d subdir with
  | none => rfl
  | some node => rfl

theorem mainConfigExists_runs (he : Calm e) (subdir : String) :
    Yields (Stands d key) (mainConfigExists e subdir) (hasMain (d subdir)) (Stands d key) := by
  refine succeeds_runs he fun disk hdisk => ?_
  unfold lookup mainPath hasMain
  rw [get_below hdisk]
  cases (d subdir).bind fun node => get node ["meshlink.conf"] with
  | none => rfl
  | some node => rfl

theorem readConfigAt_runs (he : Calm e) (subdir : String) (path : Path) :
    Yields (Stands d key) (readConfigAt c e (subdir :: path) (some key))
      (readIn c key (d subdir) path) (Stands d key) := by
  unfold readIn
  have hseek : Yields (Stands d key) (succeeds (fseek e (subdir :: path))) true (Stands d key) :=
    succeeds_runs he fun _ _ => rfl
  have hread : ∀ data, ((d subdir).bind fun node => fileAt node path) = some data →
      Yields (Stands d key) (configReadFile c e (subdir :: path) (some key))
        (decode c (some key) data) (Stands d key) := by
    intro data hdata
    have hdisk : ∀ disk, Layout disk d → fileAt disk (subdir :: path) = some data :=
      fun disk hlayout => (fileAt_below hlayout subdir path).trans hdata
    refine Triple.bind_eq hseek ?_
    refine Triple.gets_bind (a := data) (fun w hw => ?_) ?_
    · rw [hdisk w.disk hw.1]
      rfl
    by_cases hempty : data = []
    · subst hempty
      exact Yields.pure _
    have hne : ¬ data.isEmpty = true := by simpa using hempty
    rw [if_neg hne]
    refine Triple.bind_eq hseek ?_
    refine Triple.bind_eq (inspect_runs (r := .ok data) he fun disk hlayout => ?_) ?_
    · rw [hdisk disk hlayout]
    · exact Yields.pure _
  have hopen (ok : Bool) (hok : ((d subdir).bind fun node => fileAt node path).isSome = ok) :
      Yields (Stands d key) (succeeds (fopenRead e (subdir :: path))) ok (Stands d key) := by
    refine succeeds_runs he fun disk hdisk => ?_
    rw [← hok, ← fileAt_below hdisk]
    unfold fileAt
    cases get disk (subdir :: path) with
    | none => rfl
    | some node =>
      cases node with
      | file data => rfl
      | dir entries => rfl
  cases hfile : (d subdir).bind fun node => fileAt node path with
  | none =>
    refine Triple.bind_eq (hopen false (by rw [hfile]; rfl)) ?_
    exact Yields.pure _
  | some data =>
    refine Triple.bind_eq (hopen true (by rw [hfile]; rfl)) ?_
    refine Triple.bind_eq (hread data hfile) ?_
    refine Triple.bind (inspect_runs (r := .ok ()) he fun _ _ => rfl) fun _ => ?_
    exact Triple.pure _ fun w hw => ⟨rfl, hw.2⟩

theorem mainConfigDecrypt_runs (he : Calm e) (subdir : String) :
    Yields (Stands d key) (mainConfigDecrypt c e subdir) (fits c key (d subdir))
      (Stands d key) := by
  refine Triple.gets_bind (fun w hw => hw.2) ?_
  refine Triple.bind_eq (readConfigAt_runs he subdir ["meshlink.conf"]) ?_
  unfold fits
  cases readIn c key (d subdir) ["meshlink.conf"] with
  | none => exact Yields.pure _
  | some config => exact Yields.pure _

theorem meshlinkReadConfig_runs (he : Calm e) (f : Format) :
    Yields (Stands d key) (meshlinkReadConfig c e f) (valid c key f (d "current"))
      (Stands d key) := by
  refine Triple.gets_bind (fun w hw => hw.2) ?_
  refine Triple.bind_eq (readConfigAt_runs he "current" ["meshlink.conf"]) ?_
  unfold valid
  cases readIn c key (d "current") ["meshlink.conf"] with
  | none => exact Yields.pure _
  | some config =>
    simp only [Option.any_some]
    cases f.mainName config with
    | none => exact Yields.pure _
    | some name =>
      refine Triple.bind_eq (readConfigAt_runs he "current" ["hosts", name]) ?_
      simp only [Option.any_some]
      cases readIn c key (d "current") ["hosts", name] with
      | none => exact Yields.pure _
      | some host => exact Yields.pure _

end Reading

section Adopting

variable {c : Cipher} {e : Env} {key : Bytes} {d : String → Option Tree} {α : Type}

/-- Without failures and crashes the code does its work. -/
theorem calm_triple (he : Calm e) {P : World → Prop} {Mid : Base → Prop} {Q Q' : α → World → Prop}
    {x : Command World α} (h : Triple (Dying e Mid) P x Q')
    (hgood : ∀ a w, Q' a w → Q a w ∨ ∃ n op, e.fails n op = true) :
    Triple (fun _ => False) P x Q := by
  refine Triple.stops (Triple.mono h (fun _ hw => hw) fun a w hw => ?_) ?_
  · refine (hgood a w hw).resolve_right ?_
    rintro ⟨n, op, hfails⟩
    rw [he.fails] at hfails
    cases hfails
  · rintro w ⟨⟨n, op, hkills⟩, -⟩
    rw [he.kills] at hkills
    cases hkills

theorem calm_runs (he : Calm e) {P : World → Prop} {Q : α → World → Prop} {bot : α}
    {x : Command World α}
    (h : Does e (fun f => ∃ n, e.fails n f.op = true) (fun _ => True) bot P x Q) :
    Triple (fun _ => False) P x Q := by
  refine calm_triple he h fun a w hw => hw.imp_right ?_
  rintro ⟨-, -, f, -, n, hfails⟩
  exact ⟨n, f.op, hfails⟩

variable {subdir : String}

theorem configDestroy_runs (he : Calm e) (hsub : ∀ node, d subdir = some node → Subdir node) :
    Yields (Stands d key) (configDestroy e subdir) true (Stands (Function.update d subdir none) key)
      := by
  intro w hw
  have hsub' : ∀ node, get (base w).disk [subdir] = some node → Subdir node :=
    fun node hnode => hsub node ((hw.1.entry subdir).symm.trans hnode)
  have hdestroy : Triple (fun _ => False) (Is (base w) w.failures) (configDestroy e subdir) _ :=
    calm_runs he (does_configDestroy_any hw.1.proper (fun _ _ => trivial)
      (fun call rest n unread _ hfails => ⟨n, hfails⟩) (fun call n _ _ hfails => ⟨n, hfails⟩) hsub')
  refine Triple.mono hdestroy (fun _ hw => hw) ?_ w ⟨rfl, rfl⟩
  intro ok w' hw'
  obtain ⟨hok, disk, his, hpruned, hgone⟩ := hw'
  have hdisk : w'.disk = disk := congrArg Base.disk his.base
  have hkey : w'.configKey = w.configKey := congrArg Base.configKey his.base
  have hlayout := hw.1.near hpruned.near hpruned.proper
  rw [hgone] at hlayout
  refine ⟨hok, ?_, hkey.trans hw.2⟩
  rw [hdisk]
  exact hlayout

theorem configRename_runs (he : Calm e) {source target : String} {node : Tree}
    (hnode : d source = some node) (hfree : d target = none) :
    Yields (Stands d key) (configRename e source target) true
      (Stands (renamedTo d source target) key) := by
  intro w hw
  obtain ⟨top, htop⟩ := hw.1.top
  have hget : get (base w).disk [source] = some node := (hw.1.entry source).trans hnode
  have hnone : get (base w).disk [target] = none := (hw.1.entry target).trans hfree
  have hreplace : mayReplace node (get (base w).disk [target]) = true := by
    rw [hnone]
    cases node <;> rfl
  have hrename : Triple (Dying e fun _ => True) (Is (base w) w.failures)
      (succeeds (rename e [source] [target])) _ :=
    rename_exact (show (base w).disk = .dir top from htop) hget hreplace trivial trivial
  have hmoved : Yields (Is (base w) w.failures) (succeeds (rename e [source] [target])) true
      (Is (moved (base w) source target node) w.failures) :=
    calm_triple he hrename fun ok w' hw' => hw'.imp_right fun hw' => ⟨hw'.2.2.choose, _,
      hw'.2.2.choose_spec⟩
  have hsync : Triple (fun _ => False) (Is (moved (base w) source target node) w.failures)
      (syncPath e []) _ :=
    calm_runs he (does_syncPath rfl trivial fun call n _ _ hfails => ⟨n, hfails⟩)
  refine Triple.bind_eq hmoved (Triple.mono hsync (fun _ hw => hw) ?_) w ⟨rfl, rfl⟩
  intro ok w' hw'
  have hdisk : w'.disk = (moved (base w) source target node).disk := congrArg Base.disk hw'.2.base
  have hkey : w'.configKey = w.configKey := congrArg Base.configKey hw'.2.base
  refine ⟨hw'.1, ?_, hkey.trans hw.2⟩
  rw [hdisk]
  exact Layout.moved (b := base w) hw.1 hnode

theorem hasMain_of_fits {node : Option Tree} (h : fits c key node = true) :
    hasMain node = true := by
  unfold fits readIn at h
  unfold hasMain
  cases node with
  | none => cases h
  | some node =>
    unfold fileAt at h
    simp only [Option.bind_some] at h ⊢
    cases hget : get node ["meshlink.conf"] with
    | none =>
      rw [hget] at h
      cases h
    | some child => rfl

theorem fits_of_not_hasMain {node : Option Tree} (h : hasMain node = false) :
    fits c key node = false := by
  refine eq_false_of_ne_true fun hfits => ?_
  rw [hasMain_of_fits hfits] at h
  cases h

theorem renamedTo_update (h : subdir ≠ "current") :
    renamedTo (Function.update d "current" none) subdir "current" =
      renamedTo d subdir "current" := by
  unfold renamedTo
  rw [update_of_ne h, update_comm h, update_idem,
    update_comm h.symm]

theorem adopt_runs (he : Calm e) (hne : subdir ≠ "current")
    (hsub : ∀ node, d "current" = some node → Subdir node) :
    Yields (Stands d key) (adopt c e subdir) (some (hasMain (d subdir), fits c key (d subdir)))
      (Stands (if fits c key (d subdir) then renamedTo d subdir "current" else d) key) := by
  refine Triple.bind_eq (mainConfigExists_runs he subdir) ?_
  cases hmain : hasMain (d subdir) with
  | false =>
    rw [fits_of_not_hasMain hmain]
    exact Yields.pure _
  | true =>
    refine Triple.bind_eq (mainConfigDecrypt_runs he subdir) ?_
    cases hfits : fits c key (d subdir) with
    | false => exact Yields.pure _
    | true =>
      obtain ⟨node, hnode⟩ : ∃ node, d subdir = some node := by
        cases hnode : d subdir with
        | none =>
          rw [hnode] at hmain
          cases hmain
        | some node => exact ⟨node, rfl⟩
      refine Triple.bind_eq (configDestroy_runs he hsub) ?_
      have hnode' : Function.update d "current" none subdir = some node := by
        rw [update_of_ne hne, hnode]
      refine Triple.bind_eq (configRename_runs he hnode' (update_self ..)) ?_
      rw [renamedTo_update hne]
      exact Yields.pure _

theorem adoptUnless_runs (he : Calm e) (hne : subdir ≠ "current")
    (hsub : ∀ node, d "current" = some node → Subdir node) :
    Yields (Stands d key) (adoptUnless c e false subdir)
      (some (hasMain (d subdir), fits c key (d subdir)))
        (Stands (if fits c key (d subdir) then renamedTo d subdir "current" else d) key) :=
  Triple.gets_bind (fun _ hw => hw.2) (adopt_runs he hne hsub)

theorem adoptUnless_skips {P : World → Prop} (subdir : String) :
    Yields P (adoptUnless c e true subdir) (some (false, false)) P := by
  refine Triple.bind (Triple.gets _ (Q := fun _ w => P w) fun _ hw => hw) fun key => ?_
  rw [Bool.not_true, Bool.and_false]
  exact Yields.pure _

/-- The sub-directories of a configuration base are directories. -/
def Subdirs (d : String → Option Tree) : Prop :=
  ∀ name node, name = "current" ∨ name = "new" ∨ name = "old" → d name = some node → Subdir node

theorem cleaning_runs (he : Calm e) (hsub : ∀ node, d "old" = some node → Subdir node)
    (hsub' : ∀ node, d "new" = some node → Subdir node) (result : Bool) :
    Yields (Stands d key) (do
      if !(← configDestroy e "old") then pure false
      else if !(← configDestroy e "new") then pure false
      else pure result) result (Stands (cleaned d) key) := by
  refine Triple.bind_eq (configDestroy_runs he hsub) ?_
  have hnew : ∀ node, Function.update d "old" none "new" = some node → Subdir node := by
    intro node hnode
    rw [update_of_ne (by decide)] at hnode
    exact hsub' node hnode
  refine Triple.bind_eq (configDestroy_runs he hnew) ?_
  exact Yields.pure _

theorem renamed_subdir {name : String} (hsub : Subdirs d) (hname : name = "new" ∨ name = "old") :
    ∀ node, renamedTo d subdir "current" name = some node → Subdir node := by
  intro node hnode
  unfold renamedTo at hnode
  have hcurrent : name ≠ "current" := by
    rcases hname with rfl | rfl <;> decide
  rw [update_of_ne hcurrent] at hnode
  by_cases heq : name = subdir
  · rw [heq, update_self] at hnode
    cases hnode
  · rw [update_of_ne heq] at hnode
    exact hsub name node (Or.inr hname) hnode

theorem currentDecryptable_runs (he : Calm e) :
    Yields (Stands d key) (currentDecryptable c e (hasMain (d "current")))
      (fits c key (d "current")) (Stands d key) := by
  refine Triple.gets_bind (fun _ hw => hw.2) ?_
  cases hmain : hasMain (d "current") with
  | true => exact mainConfigDecrypt_runs he "current"
  | false =>
    rw [fits_of_not_hasMain hmain]
    exact Yields.pure _

theorem meshlinkConfbaseExists_runs (he : Calm e) (hsub : Subdirs d) :
    Yields (Stands d key) (meshlinkConfbaseExists c e) (found d)
      (Stands (settled c key d) key) := by
  have hcurrent := fun node => hsub "current" node (Or.inl rfl)
  have hnew := fun node => hsub "new" node (Or.inr (Or.inl rfl))
  have hold := fun node => hsub "old" node (Or.inr (Or.inr rfl))
  refine Triple.bind_eq (mainConfigExists_runs he "current") ?_
  refine Triple.bind_eq (currentDecryptable_runs he) ?_
  unfold settled found
  cases hfits : fits c key (d "current") with
  | true =>
    refine Triple.bind_eq (adoptUnless_skips "new") ?_
    refine Triple.bind_eq (adoptUnless_skips "old") ?_
    rw [hasMain_of_fits hfits]
    exact cleaning_runs he hold hnew true
  | false =>
    refine Triple.bind_eq (adoptUnless_runs he (by decide) hcurrent) ?_
    cases hfits' : fits c key (d "new") with
    | true =>
      refine Triple.bind_eq (adoptUnless_skips "old") ?_
      have hmain := hasMain_of_fits hfits'
      simp only [hmain, Bool.or_true, Bool.true_or, Bool.or_false, Bool.and_true, if_true,
        Bool.false_eq_true, if_false]
      exact cleaning_runs he (renamed_subdir hsub (Or.inr rfl)) (renamed_subdir hsub (Or.inl rfl))
        true
    | false =>
      refine Triple.bind_eq (adoptUnless_runs he (by decide) hcurrent) ?_
      cases hfits'' : fits c key (d "old") with
      | true =>
        have hmain := hasMain_of_fits hfits''
        simp only [hmain, hfits'', Bool.or_true, Bool.and_true, if_true, Bool.false_eq_true,
          if_false]
        exact cleaning_runs he (renamed_subdir hsub (Or.inr rfl))
          (renamed_subdir hsub (Or.inl rfl)) true
      | false =>
        simp only [hfits'', Bool.or_false, Bool.and_false, Bool.false_eq_true, if_false]
        exact Yields.pure _

theorem openWith_runs (he : Calm e) (f : Format) (hsub : Subdirs d) :
    Yields (fun w => Layout w.disk d) (openWith c e f key) (opening c key f d)
      (Stands (settled c key d) key) := by
  refine Triple.bind (Triple.update _ (R := fun _ w => Stands d key w) fun w hw => ⟨hw, rfl⟩)
    fun _ => ?_
  refine Triple.bind_eq (meshlinkConfbaseExists_runs he hsub) ?_
  unfold opening
  cases found d with
  | false => exact Yields.pure _
  | true =>
    refine Triple.bind_eq (meshlinkReadConfig_runs he f) ?_
    cases valid c key f (settled c key d "current") with
    | true | false => exact Yields.pure _

end Adopting

end Meshlink.StorageRecovery
