import Meshlink.ConfBase
import Meshlink.RotationFailures

/-!
Rotating the storage key. The configuration is copied to the directory new under
the new key, current is renamed to old and new to current, and old is removed.
Only after that the key in memory is replaced. Whatever fails on the way, the
call returns without going back.
-/
namespace Meshlink.KeyRotation

open Commands FileTree Storage StorageRules DirectoryRemoval DirectoryCopy TreeCopy ConfBase
  RotationFailures

/-- A configuration base with an encrypted configuration, and perhaps with what is
left of earlier rotations. -/
structure Encrypted (c : Cipher) (key : Bytes) (orig disk : Tree) : Prop where
  top : ∃ entries, disk = .dir entries
  proper : Proper disk
  current : get disk ["current"] = some orig
  new : ∀ node, get disk ["new"] = some node → Subdir node
  old : ∀ node, get disk ["old"] = some node → Subdir node
  sound : Sound c key orig
  main : ∃ data, fileAt orig ["meshlink.conf"] = some data

/-- The configuration is open and its key is in memory. -/
structure Start (c : Cipher) (key : Bytes) (orig : Tree) (w : World) : Prop where
  encrypted : Encrypted c key orig w.disk
  stream : w.stream = none
  configKey : w.configKey = some key
  failures : w.failures = []
  renamed : w.renamed = []
  closed : w.closed = []

/-- A directory old that is not empty keeps current from being renamed. -/
def Blocked (orig disk : Tree) : Prop := mayReplace orig (get disk ["old"]) = false

/-- A rotation of the configuration `orig` from one key to another, started in a world. -/
structure Plan where
  c : Cipher
  e : Env
  key : Bytes
  newKey : Bytes
  orig : Tree
  start : World

/-- The copy that a rotation makes. -/
def Plan.job (r : Plan) : Job where
  c := r.c
  e := r.e
  bad f := Reported f ∧ ¬ Faultless r.e
  source := "current"
  target := "new"
  key := r.key
  newKey := r.newKey
  start := base r.start
  apart := by decide
  failed _ h := h.2
  blames _ _ _ hcall _ hfails := ⟨Or.inl ⟨rfl, hcall⟩, not_faultless hfails⟩
  blamesBelow _ _ _ _ hcall hfails := ⟨Or.inr ⟨rfl, hcall⟩, not_faultless hfails⟩

/-- The original was copied, and the files of the copy were closed. -/
structure Finished (r : Plan) (copy : Tree) (silent : List Failure) (closed : List Path) :
    Prop where
  part : PartCopy r.job r.orig copy silent
  writing : Writing r.job (placed r.job (base r.start) [] copy closed)

/-- The original is in old, the copy still in new. -/
structure Swapped (key : Bytes) (orig copy : Tree) (closed : List Path) (b : Base) : Prop where
  layout : ∃ d, Layout b.disk d ∧ d "current" = none ∧ d "new" = some copy ∧ d "old" = some orig
  configKey : b.configKey = some key
  renamed : b.renamed = [["current"]]
  closed : b.closed = closed

/-- The copy is in current. -/
structure Installed (key : Bytes) (copy : Tree) (closed : List Path) (b : Base) : Prop where
  layout : ∃ d, Layout b.disk d ∧ d "current" = some copy ∧ d "new" = none ∧
    ∀ node, d "old" = some node → Subdir node
  configKey : b.configKey = some key
  renamed : b.renamed = [["current"], ["new"]]
  closed : b.closed = closed

/-- How a rotation can end. -/
inductive Ending (r : Plan) (w : World) : Prop
  | early (hwriting : Writing r.job (base w))
      (hwhy : Blocked r.orig r.start.disk ∨ ∃ f ∈ w.failures, Reported f)
  | swapped (copy : Tree) (silent : List Failure) (closed : List Path)
      (hfree : ¬ Blocked r.orig r.start.disk) (hdone : Finished r copy silent closed)
      (hstate : Swapped r.key r.orig copy closed (base w)) (htail : Tail silent w)
      (hlate : ∃ f ∈ w.failures, Late f)
  | installed (copy : Tree) (silent : List Failure) (closed : List Path)
      (hfree : ¬ Blocked r.orig r.start.disk) (hdone : Finished r copy silent closed)
      (hstate : Installed r.key copy closed (base w)) (htail : Tail silent w)
      (hlate : ∃ f ∈ w.failures, Late f)
  | rotated (copy : Tree) (silent : List Failure) (closed : List Path)
      (hfree : ¬ Blocked r.orig r.start.disk) (hdone : Finished r copy silent closed)
      (hstate : Installed r.newKey copy closed (base w)) (hall : w.failures = silent)

/-- What a crash leaves behind. -/
def Crashed (r : Plan) (w : World) : Prop :=
  Writing r.job (base w) ∨ ∃ copy silent closed, Finished r copy silent closed ∧
    (Swapped r.key r.orig copy closed (base w) ∨ Installed r.key copy closed (base w))

section Rotation

variable {c : Cipher} {key : Bytes} {orig : Tree} {w₀ : World}

theorem orig_dir (h : Encrypted c key orig w₀.disk) :
    ∃ entries, orig = .dir entries ∧
      ∃ data, entries.lookup "meshlink.conf" = some (.file data) := by
  obtain ⟨data, hdata⟩ := h.main
  cases orig with
  | file contents => cases hdata
  | dir entries =>
    refine ⟨entries, rfl, data, ?_⟩
    rw [fileAt_cons] at hdata
    cases hmain : entries.lookup "meshlink.conf" with
    | none =>
      rw [hmain] at hdata
      cases hdata
    | some node =>
      rw [hmain] at hdata
      exact congrArg some (Option.some.inj (get_of_fileAt hdata))

theorem orig_subdir (h : Encrypted c key orig w₀.disk) : Subdir orig := by
  obtain ⟨entries, rfl, data, hmain⟩ := orig_dir h
  refine ⟨entries, rfl, fun sub hsub => ?_⟩
  rw [hmain] at hsub
  cases hsub

theorem start_layout (h : Start c key orig w₀) : Layout w₀.disk fun name => get w₀.disk [name] :=
  ⟨h.encrypted.top, h.encrypted.proper, fun _ => rfl⟩

variable {r : Plan}

theorem writing_start (h : Start r.c r.key r.orig r.start) : Writing r.job (base r.start) := by
  refine ⟨Or.inl rfl, h.encrypted.proper, h.encrypted.new, fun path buffer hstream => ?_, rfl, rfl,
    fun _ => ⟨fun path hclosed => ?_, fun path data _ hdata => Or.inr hdata⟩⟩
  · have hnone : (none : Option (Path × Bytes)) = some (path, buffer) := h.stream.symm.trans hstream
    cases hnone
  · rw [show (base r.start).closed = [] from h.closed] at hclosed
    cases hclosed

/-- A step of the rotation that goes on or ends. -/
theorem settle {e : Env} {bad : Failure → Prop} {Mid : Base → Prop} {E P Q I R : World → Prop}
    {x : Command World Bool} (hx : Does e bad Mid false P x fun ok w => ok = true ∧ Q w)
    (hkeeps : Keeps I x) (hI : ∀ w, P w → I w) (hE : ∀ w, Mid (base w) → E w)
    (hfail : ∀ w, Failing bad Mid w → I w → R w) :
    Triple E P x fun ok w => ok = true ∧ Q w ∨ ok = false ∧ R w := by
  refine Triple.stops (Triple.mono (Triple.and_keeps hx hkeeps hI) (fun _ hw => hw) ?_)
    fun w hw => hE w hw.2
  intro ok w hw
  rcases hw with ⟨hgood | ⟨hok, hfailing⟩, hkept⟩
  · exact Or.inl hgood
  · exact Or.inr ⟨hok, hfail w hfailing hkept⟩

variable (h : Start r.c r.key r.orig r.start)

include h

theorem copy_ends :
    Triple (Crashed r) (Is (base r.start) [])
      (configCopy r.c r.e "current" (some r.key) "new" (some r.newKey)) fun ok w =>
        ok = true ∧ Copied r.job (base r.start) [] [] r.orig w ∨ ok = false ∧ Ending r w := by
  obtain ⟨entries, horig, main, hmain⟩ := orig_dir h.encrypted
  have hcurrent := h.encrypted.current
  have hsound := h.encrypted.sound
  rw [horig] at hcurrent hsound ⊢
  have hmain' : get (base r.start).disk (["current"] ++ ["meshlink.conf"]) = some (.file main) :=
    (get_child hcurrent).trans hmain
  have hcopy : Does r.e r.job.bad (Writing r.job) false (Is (base r.start) []) (configCopy r.c r.e
      "current" (some r.key) "new" (some r.newKey)) _ := does_configCopy (j := r.job) hmain'
    (writing_start h) h.stream h.closed hcurrent hsound ((start_layout h).room "new")
  refine settle (I := fun _ => True) hcopy (fun w _ => ?_) (fun _ _ => trivial)
    (fun w hw => Or.inl hw) fun w hw _ => Ending.early hw.1 (Or.inr ?_)
  · cases configCopy r.c r.e "current" (some r.key) "new" (some r.newKey) w with
    | mk result w' =>
      cases result with
      | none => trivial
      | some ok => trivial
  · obtain ⟨f, hf, hreported, -⟩ := hw.2
    exact ⟨f, hf, hreported⟩

section Steps

variable {b : Base} {copy : Tree} {silent : List Failure} {closed : List Path}

omit h in
theorem near_new (hwriting : Writing r.job b) : Near r.start.disk ["new"] b.disk := hwriting.near

theorem current_kept (hwriting : Writing r.job b) : get b.disk ["current"] = some r.orig :=
  ((near_new hwriting).get_of_ne (by decide) []).trans h.encrypted.current

omit h in
theorem old_kept (hwriting : Writing r.job b) : get b.disk ["old"] = get r.start.disk ["old"] :=
  (near_new hwriting).get_of_ne (by decide) []

theorem finished_new :
    get (placed r.job (base r.start) [] copy closed).disk ["new"] = some copy :=
  get_placed (j := r.job) ((start_layout h).room "new")

theorem finished_subdir (hdone : Finished r copy silent closed) : Subdir copy :=
  hdone.writing.shape copy (finished_new h)

theorem swapped_moved (hwriting : Writing r.job b) (hnew : get b.disk ["new"] = some copy) :
    Swapped r.key r.orig copy b.closed (moved b "current" "old" r.orig) := by
  have hlayout := (start_layout h).near (near_new hwriting) hwriting.proper
  have hcurrent : Function.update (fun name => get r.start.disk [name]) "new" (get b.disk ["new"])
      "current" = some r.orig := h.encrypted.current
  refine ⟨⟨_, hlayout.moved hcurrent, ?_, ?_, ?_⟩, hwriting.configKey.trans h.configKey, ?_, rfl⟩
  · simp [renamedTo]
  · simp [renamedTo, hnew]
  · rw [renamedTo, Function.update_self, hcurrent]
  · change b.renamed ++ [["current"]] = _
    rw [hwriting.renamed, show r.job.start.renamed = [] from h.renamed]
    rfl

omit h in
/-- A rename fails and leaves everything, or it is done and only the sync can fail. -/
theorem rename_settles {e : Env} {E : World → Prop} {After : Base → Prop} {source target : String}
    {node : Tree} {top : Entries} (htop : b.disk = .dir top)
    (hsource : get b.disk [source] = some node)
    (hfree : mayReplace node (get b.disk [target]) = true) (hbefore : ∀ w, base w = b → E w)
    (hmoved : After (moved b source target node)) (hafter : ∀ w, After (base w) → E w) :
    Triple E (Is b silent) (configRename e source target) fun ok w =>
      ok = true ∧ Is (moved b source target node) silent w ∨ ok = false ∧
        (Is b (silent ++ [⟨⟨.rename, [source]⟩, []⟩]) w ∨
          Failing Late After w ∧ Tail silent w) := by
  have hrename : Triple (Dying e fun b' => b' = b ∨ After b') (Is b silent)
      (succeeds (rename e [source] [target])) _ :=
    rename_exact htop hsource hfree (Or.inl rfl) (Or.inr hmoved)
  have hsync : Does e Late After false (Is (moved b source target node) silent) (syncPath e []) _ :=
    does_syncPath rfl hmoved fun call n _ _ _ => LateAt.late call []
  refine branch (Triple.stops hrename fun w hw => hw.2.elim (hbefore w) (hafter w)) ?_
    (Triple.pure false fun w hw => Or.inr ⟨rfl, Or.inl hw.1⟩)
  exact settle hsync Keeping.keeps (fun w hw => tail_of_is hw) hafter
    fun w hw htail => Or.inr ⟨hw, htail⟩

/-- The rename of current, and the first sync. -/
theorem swap_ends (hdone : Finished r copy silent closed)
    (hb : b = placed r.job (base r.start) [] copy closed) :
    Triple (Crashed r) (Is b silent) (configRename r.e "current" "old") fun ok w =>
      ok = true ∧ (Is (moved b "current" "old" r.orig) silent w ∧ ¬ Blocked r.orig r.start.disk) ∨
        ok = false ∧ Ending r w := by
  have hwriting : Writing r.job b := hb ▸ hdone.writing
  have hswapped : Swapped r.key r.orig copy closed (moved b "current" "old" r.orig) := by
    subst hb
    exact swapped_moved h hwriting (finished_new h)
  have hcurrent := current_kept h hwriting
  have hearly : ∀ w : World, base w = b → Writing r.job (base w) := fun w hw => hw ▸ hwriting
  by_cases hblocked : Blocked r.orig r.start.disk
  · have hfull : mayReplace r.orig (get b.disk ["old"]) = false := by
      rw [old_kept hwriting]
      exact hblocked
    have hrename : Triple (Crashed r) (Is b silent)
        (succeeds (rename r.e ["current"] ["old"])) fun ok w => ok = false ∧ Is b silent w :=
      Triple.stops (rename_blocked hcurrent hfull hwriting) fun w hw => Or.inl hw.2
    exact Triple.bind_eq hrename (Triple.pure false fun w hw =>
      Or.inr ⟨rfl, Ending.early (hearly w hw.base) (Or.inl hblocked)⟩)
  have hfree : mayReplace r.orig (get b.disk ["old"]) = true := by
    rw [old_kept hwriting]
    exact eq_true_of_ne_false hblocked
  obtain ⟨top, htop⟩ := ((start_layout h).near (near_new hwriting) hwriting.proper).top
  refine Triple.mono (rename_settles htop hcurrent hfree (fun w hw => Or.inl (hearly w hw)) hswapped
    fun w hw => Or.inr ⟨copy, silent, closed, hdone, Or.inl hw⟩) (fun _ hw => hw) fun ok w hw => ?_
  rcases hw with ⟨hok, hw⟩ | ⟨hok, hw | ⟨hw, htail⟩⟩
  · exact Or.inl ⟨hok, hw, hblocked⟩
  · refine Or.inr ⟨hok, Ending.early (hearly w hw.base) (Or.inr ⟨⟨⟨.rename, ["current"]⟩, []⟩, ?_,
      Or.inl ⟨rfl, nofun⟩⟩)⟩
    rw [hw.failures]
    exact List.mem_append_right _ (List.mem_singleton_self _)
  · exact Or.inr ⟨hok, Ending.swapped copy silent closed hblocked hdone hw.1 htail hw.2⟩

omit h

variable (hfree : ¬ Blocked r.orig r.start.disk) (hdone : Finished r copy silent closed)

theorem installed_moved (hsub : Subdir orig) (hstate : Swapped key orig copy closed b) :
    Installed key copy closed (moved b "new" "current" copy) := by
  obtain ⟨d, hlayout, hcurrent, hnew, hold⟩ := hstate.layout
  refine ⟨⟨_, hlayout.moved hnew, ?_, ?_, fun node hnode => ?_⟩, hstate.configKey, ?_,
    hstate.closed⟩
  · rw [renamedTo, Function.update_self, hnew]
  · simp [renamedTo]
  · simp only [renamedTo, ne_eq, String.reduceEq, not_false_eq_true, Function.update_of_ne] at hnode
    rw [hold] at hnode
    cases hnode
    exact hsub
  · change b.renamed ++ [["new"]] = _
    rw [hstate.renamed]
    rfl

include hfree hdone

/-- The rename of new, and the second sync. -/
theorem install_ends (hsub : Subdir r.orig) (hstate : Swapped r.key r.orig copy closed b) :
    Triple (Crashed r) (Is b silent) (configRename r.e "new" "current") fun ok w =>
      ok = true ∧ Is (moved b "new" "current" copy) silent w ∨ ok = false ∧ Ending r w := by
  obtain ⟨d, hlayout, hcurrent, hnew, hold⟩ := hstate.layout
  obtain ⟨top, htop⟩ := hlayout.top
  have hgone : mayReplace copy (get b.disk ["current"]) = true := by
    rw [hlayout.entry, hcurrent]
    cases copy <;> rfl
  refine Triple.mono (rename_settles htop ((hlayout.entry "new").trans hnew) hgone
    (fun w hw => Or.inr ⟨copy, silent, closed, hdone, Or.inl (hw ▸ hstate)⟩)
    (installed_moved hsub hstate) fun w hw => Or.inr ⟨copy, silent, closed, hdone, Or.inr hw⟩)
    (fun _ hw => hw) fun ok w hw => hw.imp_right fun hw => ⟨hw.1, ?_⟩
  rcases hw.2 with hw | ⟨hw, htail⟩
  · refine Ending.swapped copy silent closed hfree hdone (hw.base ▸ hstate) ⟨?_, ?_⟩
      ⟨_, hw.failures ▸ List.mem_append_right _ (List.mem_singleton_self _), late_renameNew⟩
    · exact fun f hf => hw.failures ▸ List.mem_append_left _ hf
    · intro f hf
      rcases List.mem_append.mp (hw.failures ▸ hf) with hf | hf
      · exact Or.inl hf
      · rw [List.mem_singleton.mp hf]
        exact Or.inr late_renameNew
  · exact Ending.installed copy silent closed hfree hdone hw.1 htail hw.2

omit hfree hdone in
theorem installed_pruned {disk : Tree} (hstate : Installed key copy closed b)
    (hpruned : Pruned b.disk ["old"] disk) : Installed key copy closed (remaining b disk) := by
  obtain ⟨d, hlayout, hcurrent, hnew, hold⟩ := hstate.layout
  refine ⟨⟨_, hlayout.near hpruned.near hpruned.proper, ?_, ?_, fun node hnode => ?_⟩,
    hstate.configKey, hstate.renamed, hstate.closed⟩
  · simp [hcurrent]
  · simp [hnew]
  rw [Function.update_self] at hnode
  refine subdir_within hpruned.within (fun node hnode => hold node ?_) node hnode
  rw [← hlayout.entry]
  exact hnode

theorem destroy_ends (hstate : Installed r.key copy closed b) :
    Triple (Crashed r) (Is b silent) (configDestroy r.e "old") fun ok w =>
      ok = true ∧ (Installed r.key copy closed (base w) ∧ w.failures = silent) ∨
        ok = false ∧ Ending r w := by
  obtain ⟨d, hlayout, hcurrent, hnew, hold⟩ := hstate.layout
  have hdestroy : Does r.e Late (Installed r.key copy closed) false (Is b silent)
      (configDestroy r.e "old") _ :=
    does_configDestroy_any hlayout.proper (fun disk hpruned => installed_pruned hstate hpruned)
      (fun call rest n unread _ _ => (lateAt_old rest).late call unread)
      (fun call n _ _ _ => LateAt.late call [])
      fun node hnode => hold node ((hlayout.entry "old").symm.trans hnode)
  refine settle (Does.mono hdestroy (fun _ hw => hw) ?_) Keeping.keeps
    (fun w hw => tail_of_is hw) (fun w hw => Or.inr ⟨copy, silent, closed, hdone, Or.inr hw⟩)
    fun w hw htail => Ending.installed copy silent closed hfree hdone hw.1 htail hw.2
  intro ok w hw
  obtain ⟨hok, disk, hw, hpruned, -⟩ := hw
  exact ⟨hok, hw.base ▸ installed_pruned hstate hpruned, hw.failures⟩

end Steps

theorem rotate_ends :
    Triple (Crashed r) (Is (base r.start) []) (meshlinkEncryptedKeyRotate r.c r.e r.newKey)
      fun _ w => Ending r w := by
  refine Triple.gets_bind (a := some r.key) (fun w hw => ?_) ?_
  · rw [← h.configKey]
    exact congrArg Base.configKey hw.base
  refine branch (copy_ends h) ?_ (Triple.pure false fun _ hw => hw)
  intro w hw
  obtain ⟨copy, silent, closed, hw, hwriting, hpart⟩ := hw
  rw [List.nil_append] at hw
  have hdone : Finished r copy silent closed := ⟨hpart, hwriting⟩
  have hsub := orig_subdir h.encrypted
  have hswapped := swapped_moved h hwriting (finished_new h)
  have hrest : Triple (Crashed r)
      (Is (placed r.job (base r.start) [] copy closed) silent) (do
        if !(← configRename r.e "current" "old") then pure false
        else if !(← configRename r.e "new" "current") then pure false
        else if !(← configDestroy r.e "old") then pure false
        else do
          update fun w => {w with configKey := some r.newKey}
          pure true) fun _ w => Ending r w := by
    refine branch (swap_ends h hdone rfl) ?_ (Triple.pure false fun _ hw => hw)
    refine Triple.assume fun hfree => ?_
    refine branch (install_ends hfree hdone hsub hswapped) ?_ (Triple.pure false fun _ hw => hw)
    refine branch (destroy_ends hfree hdone (installed_moved hsub hswapped)) ?_
      (Triple.pure false fun _ hw => hw)
    refine Triple.bind (Triple.update _ (R := fun _ w => Installed r.newKey copy closed (base w) ∧
      w.failures = silent) fun w hw => ?_) fun _ => Triple.pure true fun w hw => ?_
    · exact ⟨⟨hw.1.layout, rfl, hw.1.renamed, hw.1.closed⟩, hw.2⟩
    · exact Ending.rotated copy silent closed hfree hdone hw.1 hw.2
  exact hrest w hw

end Rotation

section Atomicity

variable {c : Cipher} {e : Env} {key newKey : Bytes} {orig : Tree} {w w' : World}

/-- All files of the original are in current and open with the key in memory. -/
def Intact (c : Cipher) (key : Bytes) (orig : Tree) (w : World) : Prop :=
  ∃ cur, get w.disk ["current"] = some cur ∧ Holds c (some key) orig w.configKey cur

/-- A copy of the main configuration under one key does not open with the other. -/
def KeyRejected (c : Cipher) (key newKey : Bytes) (orig : Tree) : Prop :=
  ∀ data plain data', fileAt orig ["meshlink.conf"] = some data → Sealed c key data plain →
    Sealed c newKey data' plain → decode c (some key) data' = none

/-- The failures after which the configuration in current still fits the key in memory. -/
def Harmless (key newKey : Bytes) (orig : Tree) (w w' : World) : Prop :=
  Blocked orig w.disk ∨ (∃ f ∈ w'.failures, Reported f) ∨
    (∀ f ∈ w'.failures, Unnoticed f → NoFiles f.unread) ∧
      ((∀ f ∈ w'.failures, Unnoticed f) ∨ newKey = key ∧ ["new"] ∈ w'.renamed)

theorem unnoticed_of_silent {r : Plan} {f : Failure} (h : Silent r.job f) : Unnoticed f := by
  obtain ⟨hcall, ⟨rest, hpath⟩, -⟩ := h
  refine ⟨hcall, ?_⟩
  rw [hpath]
  rfl

theorem not_reported_of_unnoticed {f : Failure} (h : Unnoticed f) : ¬ Reported f := by
  intro hreported
  rcases hreported with hf | hf
  · exact hf.2 h.1
  · have heq := h.2.symm.trans hf.1
    exact absurd (Option.some.inj heq) (by decide)

section Tails

variable {r : Plan} {copy : Tree} {silent : List Failure}
  (hpart : PartCopy r.job r.orig copy silent) (htail : Tail silent w')

include hpart htail

theorem tail_not_reported : ¬ ∃ f ∈ w'.failures, Reported f := by
  intro h
  obtain ⟨f, hf, hreported⟩ := h
  rcases htail.2 f hf with hsilent | hlate
  · exact not_reported_of_unnoticed (unnoticed_of_silent (hpart.unnoticed f hsilent)) hreported
  · exact hlate.2 hreported

theorem tail_complete :
    (∀ f ∈ w'.failures, Unnoticed f → NoFiles f.unread) ↔
      Holds r.c (some r.key) r.orig (some r.newKey) copy := by
  refine Iff.trans ?_ hpart.complete
  constructor
  · intro h f hf
    exact h f (htail.1 f hf) (unnoticed_of_silent (hpart.unnoticed f hf))
  · intro h f hf hunnoticed
    rcases htail.2 f hf with hsilent | hlate
    · exact h f hsilent
    · exact absurd hunnoticed hlate.1

theorem harmless_iff (hfree : ¬ Blocked r.orig w.disk) : Harmless r.key r.newKey r.orig w w' ↔
    Holds r.c (some r.key) r.orig (some r.newKey) copy ∧
      ((∀ f ∈ w'.failures, Unnoticed f) ∨ r.newKey = r.key ∧ ["new"] ∈ w'.renamed) := by
  rw [← tail_complete hpart htail]
  constructor
  · exact fun h => (h.resolve_left hfree).resolve_left (tail_not_reported hpart htail)
  · exact fun h => Or.inr (Or.inr h)

end Tails

theorem installed_intact {key' : Bytes} {copy : Tree} {closed : List Path}
    (h : Installed key' copy closed (base w')) :
    Intact c key orig w' ↔ Holds c (some key) orig (some key') copy := by
  obtain ⟨d, hlayout, hcopy, -, -⟩ := h.layout
  unfold Intact
  rw [show get w'.disk ["current"] = some copy from (hlayout.entry _).trans hcopy,
    show w'.configKey = some key' from h.configKey]
  simp

theorem not_holds_old_key (h : Encrypted c key orig w.disk) {copy : Tree} {silent : List Failure}
    (hpart : PartCopy (Plan.job ⟨c, e, key, newKey, orig, w⟩) orig copy silent)
    (hwrong : KeyRejected c key newKey orig) :
    ¬ Holds c (some key) orig (some key) copy := by
  intro hholds
  obtain ⟨data, hdata⟩ := h.main
  obtain ⟨plain, hplain⟩ := h.sound.written _ data hdata
  have hmain : plainAt c (some key) orig ["meshlink.conf"] = some (some plain) := by
    unfold plainAt
    rw [hdata, Option.map_some, hplain.decode]
  have hcopied := hholds _ _ hmain
  unfold plainAt at hcopied
  obtain ⟨data', hdata', hdecode⟩ := Option.map_eq_some_iff.mp hcopied
  obtain ⟨data₁, plain₁, hdata₁, hsealed, hsealed'⟩ := hpart.written _ data' hdata'
  rw [hwrong data₁ plain₁ data' hdata₁ hsealed hsealed'] at hdecode
  cases hdecode

theorem intact_iff (h : Start c key orig w) (hwrong : newKey ≠ key → KeyRejected c key newKey orig)
    (hend : Ending ⟨c, e, key, newKey, orig, w⟩ w') :
    Intact c key orig w' ↔ Harmless key newKey orig w w' := by
  cases hend with
  | early hwriting hwhy =>
    refine iff_of_true ⟨orig, current_kept h hwriting, ?_⟩ ?_
    · have hkey : w'.configKey = some key := hwriting.configKey.trans h.configKey
      rw [hkey]
      exact fun _ _ hplain => hplain
    · rcases hwhy with hblocked | hreported
      · exact Or.inl hblocked
      · exact Or.inr (Or.inl hreported)
  | swapped copy silent closed hfree hdone hstate htail hlate =>
    obtain ⟨d, hlayout, hgone, -, -⟩ := hstate.layout
    rw [harmless_iff hdone.part htail hfree]
    refine iff_of_false ?_ ?_
    · rintro ⟨cur, hcur, -⟩
      rw [show get w'.disk ["current"] = none from (hlayout.entry _).trans hgone] at hcur
      cases hcur
    rintro ⟨-, hall | ⟨-, hrenamed⟩⟩
    · obtain ⟨f, hf, hlate⟩ := hlate
      exact hlate.1 (hall f hf)
    · rw [show w'.renamed = [["current"]] from hstate.renamed] at hrenamed
      exact absurd hrenamed (by decide)
  | installed copy silent closed hfree hdone hstate htail hlate =>
    rw [installed_intact hstate, harmless_iff hdone.part htail hfree]
    by_cases hsame : newKey = key
    · subst hsame
      refine (and_iff_left (Or.inr ⟨rfl, ?_⟩)).symm
      rw [show w'.renamed = [["current"], ["new"]] from hstate.renamed]
      decide
    · refine iff_of_false (not_holds_old_key h.encrypted hdone.part (hwrong hsame)) ?_
      rintro ⟨-, hall | ⟨heq, -⟩⟩
      · obtain ⟨f, hf, hlate⟩ := hlate
        exact hlate.1 (hall f hf)
      · exact hsame heq
  | rotated copy silent closed hfree hdone hstate hall =>
    have htail : Tail silent w' := by
      unfold Tail
      rw [hall]
      exact ⟨fun _ hf => hf, fun _ hf => Or.inl hf⟩
    rw [installed_intact hstate, harmless_iff hdone.part htail hfree]
    refine (and_iff_left (Or.inl fun f hf => ?_)).symm
    rw [hall] at hf
    exact unnoticed_of_silent (hdone.part.unnoticed f hf)

end Atomicity

section Sample

/-- A cipher that only appends a tag. -/
def tag (key : Bytes) : Bytes := (key ++ List.replicate 16 0).take 16

theorem tag_length (key : Bytes) : (tag key).length = 16 := by
  unfold tag
  rw [List.length_take, List.length_append, List.length_replicate]
  omega

def tagCipher : Cipher where
  encrypt key _ plain := plain ++ tag key
  decrypt key _ data :=
    if data.drop (data.length - 16) = tag key then some (data.take (data.length - 16)) else none
  encrypt_length key nonce plain := by rw [List.length_append, tag_length]
  decrypt_encrypt key nonce plain := by
    have hlen : (plain ++ tag key).length - 16 = plain.length := by
      rw [List.length_append, tag_length]
      omega
    rw [hlen, List.drop_left, if_pos rfl, List.take_left]

theorem decode_tagCipher {key newKey data plain : Bytes} (hne : tag key ≠ tag newKey)
    (h : Sealed tagCipher newKey data plain) : decode tagCipher (some key) data = none := by
  have hlength := h.length
  obtain ⟨nonce, hnonce, rfl⟩ := h
  have hlen : (plain ++ tag newKey).length - 16 = plain.length := by
    rw [List.length_append, tag_length]
    omega
  change (if 12 < _ then (if (List.drop 12 (nonce ++ (plain ++ tag newKey))).drop
    ((List.drop 12 (nonce ++ (plain ++ tag newKey))).length - 16) = tag key then _ else none)
    else none) = none
  rw [if_pos (by omega), List.drop_left' hnonce, hlen, List.drop_left, if_neg (Ne.symm hne)]

theorem keyRejected_tagCipher {key newKey : Bytes} (orig : Tree) (h : tag key ≠ tag newKey) :
    KeyRejected tagCipher key newKey orig :=
  fun _ _ _ _ _ hsealed => decode_tagCipher h hsealed

def sealedFile (key plain : Bytes) : Bytes :=
  List.replicate 12 0 ++ tagCipher.encrypt key (List.replicate 12 0) plain

theorem sealedFile_sealed (key plain : Bytes) : Sealed tagCipher key (sealedFile key plain) plain :=
  ⟨List.replicate 12 0, by simp, rfl⟩

/-- A main configuration, the own host file and one of another node. -/
def sampleConfig (key : Bytes) : Tree :=
  .dir [("meshlink.conf", .file (sealedFile key [2, 97])),
    ("hosts", .dir [("a", .file (sealedFile key [97])), ("b", .file (sealedFile key [98]))])]

def sampleWorld : World where
  disk := .dir [("current", sampleConfig [1])]
  stream := none
  configKey := some [1]
  ops := 0
  failures := []
  renamed := []
  closed := []

def envWith (fails : Op → Bool) (kills : ℕ → Op → Bool) : Env where
  fails _ op := fails op
  untyped _ _ := false
  kills := kills
  written _ := 0
  nonce _ := Vector.replicate 12 7

theorem sampleConfig_sound (key : Bytes) : Sound tagCipher key (sampleConfig key) := by
  have hhosts : Sound tagCipher key (.dir [("a", .file (sealedFile key [97])),
      ("b", .file (sealedFile key [98]))]) :=
    sound_cons (by simp) (by decide) (sound_file (sealedFile_sealed key [97]))
      (sound_cons (by simp) (by decide) (sound_file (sealedFile_sealed key [98])) sound_nil)
  exact sound_cons (by simp) (by decide) (sound_file (sealedFile_sealed key [2, 97]))
    (sound_cons (by simp) (by decide) hhosts sound_nil)

theorem sampleWorld_start : Start tagCipher [1] (sampleConfig [1]) sampleWorld := by
  refine ⟨⟨⟨_, rfl⟩, ?_, rfl, nofun, nofun, sampleConfig_sound [1], _, rfl⟩, rfl, rfl, rfl, rfl,
    rfl⟩
  exact proper_cons (by simp) (sampleConfig_sound [1]).proper proper_nil

end Sample

end Meshlink.KeyRotation
