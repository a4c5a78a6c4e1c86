import Meshlink.StorageRules

/-!
Syncing, renaming and removing directories. Only what is below the directory
changes; when the removal succeeds the directory is gone, and when it does not,
a call below the directory has failed.
-/
namespace Meshlink.DirectoryRemoval

open Commands FileTree Storage StorageRules

variable {e : Env} {bad : Failure → Prop} {Mid : Base → Prop} {b : Base} {fs : List Failure}

/-- The calls that one path is about are to blame, except readdir and rename. -/
def Blames (e : Env) (bad : Failure → Prop) (path : Path) : Prop :=
  ∀ call n, call ≠ .readdir → call ≠ .rename → e.fails n ⟨call, path⟩ = true →
    bad ⟨⟨call, path⟩, []⟩

/-- All calls below a path are to blame, except rename. -/
def BlamesBelow (e : Env) (bad : Failure → Prop) (path : Path) : Prop :=
  ∀ call rest n unread, call ≠ .rename → e.fails n ⟨call, path ++ rest⟩ = true →
    bad ⟨⟨call, path ++ rest⟩, unread⟩

variable {path : Path}

theorem BlamesBelow.blames (h : BlamesBelow e bad path) (rest : Path) :
    Blames e bad (path ++ rest) :=
  fun call n _ hfails => h call rest n [] hfails

theorem BlamesBelow.below (h : BlamesBelow e bad path) (name : String) :
    BlamesBelow e bad (path ++ [name]) := by
  intro call rest n unread hcall hfails
  rw [List.append_assoc] at hfails ⊢
  exact h call _ n unread hcall hfails

theorem lookup_of_get {disk node : Tree} (h : get disk path = some node) :
    lookup disk path = .ok node := by
  unfold lookup
  rw [h]

theorem stat_of_get {disk node : Tree} (h : get disk path = some node) :
    (lookup disk path).map (fun _ => ()) = .ok () := by
  rw [lookup_of_get h]
  rfl

theorem does_syncPath {node : Tree} (hpath : get b.disk path = some node) (hmid : Mid b)
    (hblame : Blames e bad path) :
    Does e bad Mid false (Is b fs) (syncPath e path) fun ok w => ok = true ∧ Is b fs w := by
  refine Does.unless (Does.succeeds (does_inspect (lookup_of_get hpath) hmid
    fun n => hblame _ n nofun nofun)) ?_
  refine Does.unlessThen (Does.succeeds (does_inspect rfl hmid fun n => hblame _ n nofun nofun))
    inspect_after_failure ?_
  refine Does.unlessThen (Does.succeeds (does_inspect rfl hmid fun n => hblame _ n nofun nofun))
    inspect_after_failure ?_
  exact Does.pure true fun w hw => ⟨rfl, hw⟩

section Removal

variable {path : Path} {disk : Tree}

variable {entries : Entries} {entry : String × Tree} {rest : Entries}

/-- The states in which a directory is being removed. -/
def Removing (b : Base) (path : Path) (entries : Entries) (disk : Tree) : Prop :=
  Pruned b.disk path disk ∧ get disk path = some (.dir entries)

def remaining (b : Base) (disk : Tree) : Base := {b with disk := disk}

theorem assign_none_cons
    (h : ((entry :: rest).map Prod.fst).Nodup) : assign entry.1 none (entry :: rest) = rest := by
  have hnot : entry.1 ∉ rest.map Prod.fst := (List.nodup_cons.mp h).1
  simp only [assign, Option.toList_none, List.map_nil, List.append_nil]
  rw [List.filter_cons_of_neg (by simp), List.filter_eq_self]
  intro other hother
  have hne : other.1 ≠ entry.1 := fun heq => hnot (heq ▸ List.mem_map_of_mem hother)
  simpa using hne

theorem removing_nodup (h : Removing b path entries disk) : (entries.map Prod.fst).Nodup :=
  h.1.proper path entries h.2

theorem removing_get
    (h : Removing b path (entry :: rest) disk) : get disk (path ++ [entry.1]) = some entry.2 := by
  rw [get_child h.2, List.lookup_cons, beq_self_eq_true]

/-- An entry has been removed. -/
theorem removing_rest (hpath : path ≠ []) (h : Removing b path (entry :: rest) disk) :
    Removing b path rest (put disk (path ++ [entry.1]) none) := by
  have hput : put disk (path ++ [entry.1]) none = put b.disk path (some (.dir rest)) := by
    rw [h.1.near.put_below h.2 hpath (by simp)]
    simp only [put, if_true, assign_none_cons (removing_nodup h)]
  refine ⟨⟨Or.inr ⟨_, hput⟩, proper_put h.1.proper (by simp),
    h.1.within.trans (within_put_none disk _)⟩, ?_⟩
  have hsame : put disk path (some (.dir rest)) = put b.disk path (some (.dir rest)) :=
    h.1.near.put_self
  rw [hput, ← hsame]
  exact get_put_self (room_of_get h.2 hpath)

theorem withoutFile_of_file {data : Bytes} (h : get disk path = some (.file data)) :
    withoutFile disk path = .ok (put disk path none) := by
  unfold withoutFile
  rw [h]

theorem withoutFile_of_dir (h : get disk path = some (.dir entries)) :
    withoutFile disk path = .error .other := by
  unfold withoutFile
  rw [h]

theorem withoutDir_of_empty (h : get disk path = some (.dir [])) :
    withoutDir disk path = .ok (put disk path none) := by
  unfold withoutDir
  rw [h]

theorem withoutDir_of_cons
    (h : get disk path = some (.dir (entry :: rest))) : withoutDir disk path = .error .other := by
  unfold withoutDir
  rw [h]

theorem listing_of_dir (h : get disk path = some (.dir entries)) :
    listing disk path = .ok entries := by
  unfold listing
  rw [h]

theorem listing_of_file {data : Bytes} (h : get disk path = some (.file data)) :
    listing disk path = .error .other := by
  unfold listing
  rw [h]

theorem listing_of_none (h : get disk path = none) : listing disk path = .error .noent := by
  unfold listing
  rw [h]

/-- How the loop over the entries of a directory ends: they are gone, or readdir
failed before the last of them. -/
def Emptied (bad : Failure → Prop) (b : Base) (fs : List Failure) (path : Path) (w : World) :
    Prop :=
  (∃ disk, Is (remaining b disk) fs w ∧ Removing b path [] disk) ∨
    ∃ disk entry rest f, Is (remaining b disk) (fs ++ [f]) w ∧ bad f ∧
      Removing b path (entry :: rest) disk

variable (hmid : ∀ disk, Pruned b.disk path disk → Mid (remaining b disk))
  (hblame : BlamesBelow e bad path)

include hmid hblame

theorem does_deltreeEntries {del : Path → Command World Bool} (hpath : path ≠ [])
    (entries : Entries) (disk : Tree)
    (hdir : ∀ disk name sub, entries.lookup name = some (.dir sub) →
      Pruned b.disk path disk → get disk (path ++ [name]) = some (.dir sub) →
      Does e bad Mid false (Is (remaining b disk) fs) (del (path ++ [name])) fun ok w =>
        ok = true ∧ Is (remaining b (put disk (path ++ [name]) none)) fs w)
    (hfile : ∀ disk name data fs, Pruned b.disk path disk →
      get disk (path ++ [name]) = some (.file data) →
      Triple (Dying e Mid) (Is (remaining b disk) fs) (del (path ++ [name])) fun ok w =>
        ok = false ∧ Is (remaining b disk) fs w)
    (h : Removing b path entries disk) :
    Does e bad Mid false (Is (remaining b disk) fs) (deltreeEntries e del path entries)
      fun ok w => ok = true ∧ Emptied bad b fs path w := by
  induction entries generalizing disk with
  | nil =>
    refine Triple.bind (syscall_error (fun _ _ => rfl) (hmid disk h.1)) fun _ => ?_
    exact Triple.pure true fun w hw => Or.inl ⟨rfl, Or.inl ⟨disk, hw.2, h⟩⟩
  | cons entry rest ih =>
    have hmid₁ := hmid disk h.1
    have hnext := removing_rest hpath h
    have hrest : ∀ name sub, rest.lookup name = some (.dir sub) →
        (entry :: rest).lookup name = some (.dir sub) := by
      intro name sub hsub
      have hne : name ≠ entry.1 := by
        rintro rfl
        rw [lookup_eq_none_iff.mpr (List.nodup_cons.mp (removing_nodup h)).1] at hsub
        cases hsub
      rw [List.lookup_cons, beq_false_of_ne hne]
      exact hsub
    -- What remains after this entry is removed by the rest of the loop.
    have hloop : Does e bad Mid false
        (Is (remaining b (put disk (path ++ [entry.1]) none)) fs)
        (deltreeEntries e del path rest) fun ok w => ok = true ∧ Emptied bad b fs path w :=
      ih _ (fun disk name sub hsub => hdir disk name sub (hrest name sub hsub)) hnext
    have hread : Triple (Dying e Mid) (Is (remaining b disk) fs)
        (succeeds (readdir e path (entry :: rest))) _ :=
      succeeds_exact (syscall_exact (fun w hw => ⟨w, rfl, hw, rfl⟩) hmid₁ hmid₁)
    refine branch hread ?_ ?_
    · cases hentry : entry.2 with
      | file data =>
        have hget : get disk (path ++ [entry.1]) = some (.file data) := by
          rw [removing_get h, hentry]
        have hunlink : Triple (Dying e Mid) (Is (remaining b disk) fs)
            (succeeds (unlink e (path ++ [entry.1]))) _ :=
          succeeds_exact (change_exact (withoutFile_of_file hget) hmid₁ (hmid _ hnext.1))
        refine branch hunlink hloop ?_
        -- A file that cannot be unlinked is not a directory that could be removed.
        intro w hw
        obtain ⟨hw, n, hfails⟩ := hw
        refine Triple.bind_eq (hfile disk entry.1 data _ h.1 hget) ?_ w hw
        intro w hw
        refine Or.inr ⟨rfl, ?_, _, ?_, hblame .unlink [entry.1] n [] nofun hfails⟩
        · rw [hw.base]
          exact hmid₁
        · rw [hw.failures]
          exact List.mem_append_right _ (List.mem_singleton_self _)
      | dir sub =>
        have hget : get disk (path ++ [entry.1]) = some (.dir sub) := by
          rw [removing_get h, hentry]
        have hlookup : (entry :: rest).lookup entry.1 = some (.dir sub) := by
          rw [List.lookup_cons, beq_self_eq_true, hentry]
        refine Triple.bind_eq (succeeds_error (change_error (withoutFile_of_dir hget) hmid₁)) ?_
        exact Does.when (hdir disk entry.1 sub hlookup h.1 hget) hloop
    · refine Triple.pure true ?_
      intro w hw
      obtain ⟨hw, n, hfails⟩ := hw
      have hbad := hblame .readdir [] n (entry :: rest)
      rw [List.append_nil] at hbad
      exact Or.inl ⟨rfl, Or.inr ⟨disk, entry, rest, _, hw, hbad nofun hfails, h⟩⟩

omit hmid hblame

theorem deltreeLevels_file (levels : ℕ) {data : Bytes} (hmid : Mid b)
    (hget : get b.disk path = some (.file data)) :
    Triple (Dying e Mid) (Is b fs) (deltreeLevels e (levels + 1) path)
      fun ok w => ok = false ∧ Is b fs w := by
  exact Triple.bind_eq (inspect_error (listing_of_file hget) hmid) fun w hw => ⟨rfl, hw⟩

/-- The last step: an empty directory is removed, a directory that is not empty stays. -/
theorem does_rmdir (hmid : ∀ disk, Pruned b.disk path disk → Mid (remaining b disk))
    (hblame : BlamesBelow e bad path) :
    Does e bad Mid false (Emptied bad b fs path) (succeeds (rmdir e path))
      fun ok w => ok = true ∧ Is (remaining b (put b.disk path none)) fs w := by
  intro w hw
  rcases hw with ⟨disk, hw, h⟩ | ⟨disk, entry, rest, f, hw, hbad, h⟩
  · have hnone : put disk path none = put b.disk path none := h.1.near.put_self
    have hmid' : Mid (remaining b (put disk path none)) := hmid _ h.1.remove
    have hblame' := hblame.blames []
    rw [List.append_nil] at hblame'
    have hrmdir : Does e bad Mid false (Is (remaining b disk) fs) (succeeds (rmdir e path)) _ :=
      Does.succeeds (does_change (withoutDir_of_empty h.2) (hmid disk h.1) hmid'
        fun n => hblame' _ n nofun nofun)
    rw [← hnone]
    exact hrmdir w hw
  · have hrmdir : Triple (Dying e Mid) (Is (remaining b disk) (fs ++ [f]))
        (succeeds (rmdir e path)) _ :=
      succeeds_error (change_error (withoutDir_of_cons h.2) (hmid disk h.1))
    refine Triple.mono hrmdir (fun _ hw => hw) (fun ok w hw => ?_) w hw
    refine Or.inr ⟨hw.1, ?_, f, ?_, hbad⟩
    · rw [hw.2.base]
      exact hmid disk h.1
    · rw [hw.2.failures]
      exact List.mem_append_right _ (List.mem_singleton_self _)

theorem does_deltreeLevels (levels : ℕ) (b : Base) (path : Path) (entries : Entries)
    (hpath : path ≠ [])
    (hmid : ∀ disk, Pruned b.disk path disk → Mid (remaining b disk))
    (hblame : BlamesBelow e bad path) (hproper : Proper b.disk)
    (hget : get b.disk path = some (.dir entries)) (hlevels : heights entries + 1 < levels) :
    Does e bad Mid false (Is b fs) (deltreeLevels e levels path)
      fun ok w => ok = true ∧ Is (remaining b (put b.disk path none)) fs w := by
  induction levels generalizing b path entries with
  | zero => exact absurd hlevels (Nat.not_lt_zero _)
  | succ levels ih =>
    have hmid₁ : Mid b := hmid b.disk (Pruned.refl hproper)
    have hblame₁ := hblame.blames []
    rw [List.append_nil] at hblame₁
    have hloop : Does e bad Mid false (Is b fs)
        (deltreeEntries e (deltreeLevels e levels) path entries)
        fun ok w => ok = true ∧ Emptied bad b fs path w := by
      refine does_deltreeEntries hmid hblame hpath entries b.disk ?_ ?_
        ⟨Pruned.refl hproper, hget⟩
      · intro disk name sub hsub hpruned hget'
        have hheight := height_le_of_lookup hsub
        refine ih (remaining b disk) (path ++ [name]) sub (by simp) ?_ (hblame.below name)
          hpruned.proper hget' ?_
        · intro disk' hpruned'
          exact hmid disk' (hpruned.trans_below hpruned' hget' hpath (by simp))
        · rw [height_dir] at hheight
          omega
      · intro disk name data fs hpruned hget'
        cases levels with
        | zero => omega
        | succ levels => exact deltreeLevels_file levels (hmid disk hpruned) hget'
    refine Does.bind_eq (does_inspect (listing_of_dir hget) hmid₁ fun n => hblame₁ _ n nofun nofun)
      ?_ (fun w hw => ⟨rfl, hw⟩)
    exact Does.unless hloop (does_rmdir hmid hblame)

theorem does_deltree {entries : Entries} (hpath : path ≠ [])
    (hmid : ∀ disk, Pruned b.disk path disk → Mid (remaining b disk))
    (hblame : BlamesBelow e bad path) (hproper : Proper b.disk)
    (hget : get b.disk path = some (.dir entries)) :
    Does e bad Mid false (Is b fs) (deltree e path)
      fun ok w => ok = true ∧ Is (remaining b (put b.disk path none)) fs w := by
  intro w hw
  have hdisk : w.disk = b.disk := congrArg Base.disk hw.base
  have hheight := height_lt_of_get hget hpath
  have hlevels : heights entries + 1 < w.disk.height + 1 := by
    rw [height_dir] at hheight
    rw [hdisk]
    omega
  exact does_deltreeLevels _ b path entries hpath hmid hblame hproper hget hlevels w hw

theorem deltree_none (hmid : Mid b) (hget : get b.disk path = none) :
    Triple (Dying e Mid) (Is b fs) (deltree e path) fun ok w => ok = true ∧ Is b fs w := by
  intro w hw
  refine Triple.bind_eq (inspect_error (listing_of_none hget) hmid) ?_ w hw
  exact fun w hw => ⟨rfl, hw⟩

end Removal

section Subdirectories

variable {subdir : String}

/-- A directory in which the main configuration is not a directory. -/
def Subdir (node : Tree) : Prop :=
  ∃ entries, node = .dir entries ∧ ∀ sub, entries.lookup "meshlink.conf" ≠ some (.dir sub)

theorem subdir_within {disk disk' : Tree} (h : Within disk disk')
    (hsub : ∀ node, get disk [subdir] = some node → Subdir node) :
    ∀ node, get disk' [subdir] = some node → Subdir node := by
  intro node hnode
  obtain ⟨node₀, hnode₀, hkind⟩ := h [subdir] node hnode
  obtain ⟨entries₀, rfl, hmain⟩ := hsub node₀ hnode₀
  cases node with
  | file data => cases hkind
  | dir entries =>
    refine ⟨entries, rfl, fun sub hlookup => ?_⟩
    have hget : get disk' ([subdir] ++ ["meshlink.conf"]) = some (.dir sub) :=
      (get_child hnode).trans hlookup
    obtain ⟨child, hchild, hkind'⟩ := h _ _ hget
    rw [get_child hnode₀] at hchild
    cases child with
    | file data => cases hkind'
    | dir sub' => exact hmain sub' hchild

variable {entries : Entries} (hproper : Proper b.disk)
  (hmid : ∀ disk, Pruned b.disk [subdir] disk → Mid (remaining b disk))
  (hblame : BlamesBelow e bad [subdir])

include hproper hmid hblame

/-- The main configuration file is removed first, if there is one. -/
theorem does_unlinkMain (hget : get b.disk [subdir] = some (.dir entries))
    (hmain : ∀ sub, entries.lookup "meshlink.conf" ≠ some (.dir sub)) :
    Does e bad Mid (.error .other) (Is b fs) (unlink e [subdir, "meshlink.conf"])
      fun result w => result ≠ .error .other ∧ ∃ disk entries, Is (remaining b disk) fs w ∧
        Pruned b.disk [subdir] disk ∧ get disk [subdir] = some (.dir entries) := by
  have hpath : get b.disk [subdir, "meshlink.conf"] = entries.lookup "meshlink.conf" :=
    get_child hget
  cases hlookup : entries.lookup "meshlink.conf" with
  | none =>
    have hnone : withoutFile b.disk [subdir, "meshlink.conf"] = .error .noent := by
      unfold withoutFile
      rw [hpath, hlookup]
    refine Does.of_triple (Triple.mono (change_error hnone (hmid _ (Pruned.refl hproper)))
      (fun _ hw => hw) ?_)
    intro result w hw
    exact ⟨by rw [hw.1]; decide, b.disk, entries, hw.2, Pruned.refl hproper, hget⟩
  | some node =>
    cases node with
    | dir sub => exact absurd hlookup (hmain sub)
    | file data =>
      have hfile : get b.disk [subdir, "meshlink.conf"] = some (.file data) := hpath.trans hlookup
      let disk := put b.disk ([subdir] ++ ["meshlink.conf"]) none
      have hdisk : disk = put b.disk [subdir] (some (.dir (assign "meshlink.conf" none entries))) :=
        put_append hget (by simp) (by simp)
      have hpruned : Pruned b.disk [subdir] disk :=
        ⟨Or.inr ⟨_, hdisk⟩, proper_put hproper nofun, within_put_none b.disk _⟩
      refine Does.mono (does_change (withoutFile_of_file hfile) (hmid _ (Pruned.refl hproper))
        (hmid disk hpruned) fun n => hblame.blames ["meshlink.conf"] _ n nofun nofun)
        (fun _ hw => hw) ?_
      intro result w hw
      refine ⟨by rw [hw.1]; decide, disk, assign "meshlink.conf" none entries, hw.2,
        hpruned, ?_⟩
      rw [hdisk]
      exact get_put_self (room_of_get hget (by simp))

theorem does_configDestroy (hroot : Blames e bad [])
    (hget : get b.disk [subdir] = some (.dir entries))
    (hmain : ∀ sub, entries.lookup "meshlink.conf" ≠ some (.dir sub)) :
    Does e bad Mid false (Is b fs) (configDestroy e subdir)
      fun ok w => ok = true ∧ Is (remaining b (put b.disk [subdir] none)) fs w := by
  refine Does.bind_eq (does_inspect (stat_of_get hget) (hmid _ (Pruned.refl hproper))
    fun n => hblame.blames [] _ n nofun nofun) ?_ (fun w hw => ⟨rfl, hw⟩)
  refine Does.bind (does_unlinkMain hproper hmid hblame hget hmain) (fun result => ?_)
    (fun w hw => ⟨rfl, hw⟩)
  intro w hw
  obtain ⟨hresult, disk, entries', hw, hpruned, hget'⟩ := hw
  have hmid' : ∀ disk', Pruned disk [subdir] disk' → Mid (remaining (remaining b disk) disk') :=
    fun disk' hpruned' => hmid disk' (hpruned.trans hpruned')
  have hgone : put disk [subdir] none = put b.disk [subdir] none := hpruned.near.put_self
  have hrest : Does e bad Mid false (Is (remaining b disk) fs) (do
      if !(← deltree e [subdir]) then pure false else syncPath e [])
      fun ok w => ok = true ∧ Is (remaining b (put b.disk [subdir] none)) fs w := by
    refine Does.unless (does_deltree (by simp) hmid' hblame hpruned.proper hget') ?_
    change Does e bad Mid false (Is (remaining b (put disk [subdir] none)) fs) _ _
    rw [hgone]
    exact does_syncPath rfl (hmid _ (Pruned.refl hproper).remove) hroot
  cases result with
  | ok _ => exact hrest w hw
  | error errno =>
    cases errno with
    | noent => exact hrest w hw
    | other => exact absurd rfl hresult

omit hproper hmid hblame in
theorem configDestroy_none (hmid : Mid b) (hget : get b.disk [subdir] = none) :
    Triple (Dying e Mid) (Is b fs) (configDestroy e subdir)
      fun ok w => ok = true ∧ Is b fs w := by
  have hstat : (lookup b.disk [subdir]).map (fun _ => ()) = .error .noent := by
    unfold lookup
    rw [hget]
    rfl
  exact Triple.bind_eq (inspect_error hstat hmid) fun w hw => ⟨rfl, hw⟩

theorem does_configDestroy_any (hroot : Blames e bad [])
    (hsub : ∀ node, get b.disk [subdir] = some node → Subdir node) :
    Does e bad Mid false (Is b fs) (configDestroy e subdir) fun ok w =>
      ok = true ∧ ∃ disk, Is (remaining b disk) fs w ∧ Pruned b.disk [subdir] disk ∧
        get disk [subdir] = none := by
  cases hget : get b.disk [subdir] with
  | none =>
    refine Does.of_triple (Triple.mono (configDestroy_none (hmid _ (Pruned.refl hproper)) hget)
      (fun _ hw => hw) ?_)
    intro ok w hw
    exact ⟨hw.1, b.disk, hw.2, Pruned.refl hproper, hget⟩
  | some node =>
    obtain ⟨entries, rfl, hmain⟩ := hsub node hget
    refine Does.mono (does_configDestroy hproper hmid hblame hroot hget hmain)
      (fun _ hw => hw) ?_
    intro ok w hw
    exact ⟨hw.1, _, hw.2, (Pruned.refl hproper).remove,
      get_put_self (room_of_get hget (by simp))⟩

omit hproper hmid hblame

/-- The state after a sub-directory was renamed. -/
def moved (b : Base) (source target : String) (node : Tree) : Base where
  disk := put (put b.disk [source] none) [target] (some node)
  stream := follow [source] [target] b.stream
  configKey := b.configKey
  renamed := b.renamed ++ [[source]]
  closed := b.closed

section Renaming

variable {source target : String} {node : Tree} {top : Entries}

/-- A sub-directory takes a name that is free, or that of an empty directory. -/
theorem rename_exact (htop : b.disk = .dir top) (hget : get b.disk [source] = some node)
    (hfree : mayReplace node (get b.disk [target]) = true) (hmid : Mid b)
    (hmid' : Mid (moved b source target node)) :
    Triple (Dying e Mid) (Is b fs) (succeeds (rename e [source] [target])) fun ok w =>
      ok = true ∧ Is (moved b source target node) fs w ∨
        ok = false ∧ Is b (fs ++ [⟨⟨.rename, [source]⟩, []⟩]) w ∧
          ∃ n, e.fails n ⟨.rename, [source]⟩ = true := by
  refine succeeds_exact (a := ()) (syscall_exact (fun w hw => ?_) hmid hmid')
  subst hw
  have hparent : hasParent w.disk [target] = true := by
    unfold hasParent
    rw [show w.disk = .dir top from htop]
    rfl
  refine ⟨{w with
    disk := put (put w.disk [source] none) [target] (some node)
    stream := follow [source] [target] w.stream
    renamed := w.renamed ++ [[source]]}, ?_, rfl, rfl⟩
  rw [show FileTree.get w.disk [source] = some node from hget]
  simp only [show mayReplace node (FileTree.get w.disk [target]) = true from hfree, hparent]
  rfl

theorem rename_blocked (hget : get b.disk [source] = some node)
    (hfull : mayReplace node (get b.disk [target]) = false) (hmid : Mid b) :
    Triple (Dying e Mid) (Is b fs) (succeeds (rename e [source] [target])) fun ok w =>
      ok = false ∧ Is b fs w := by
  refine succeeds_error (syscall_error (fun w hw => (?_ : _ = Except.error Errno.other)) hmid)
  subst hw
  rw [show FileTree.get w.disk [source] = some node from hget]
  simp only [show mayReplace node (FileTree.get w.disk [target]) = false from hfull]
  rfl

end Renaming

end Subdirectories

end Meshlink.DirectoryRemoval
