import Meshlink.DirectoryRemoval

/-!
Copying a directory to another key. The copy has the same files with the same
contents, unless a readdir failed unnoticed and skipped entries with files in
them. Every other failure is reported, and nothing but the copy is written to.
-/
namespace Meshlink.DirectoryCopy

open List Commands FileTree Storage StorageRules DirectoryRemoval

section Contents

variable (c : Cipher)

/-- The decrypted contents of the file at a path. -/
def plainAt (key : Option Bytes) (node : Tree) (path : Path) : Option (Option Bytes) :=
  (fileAt node path).map (decode c key)

/-- All files of `node` are in `node'`, with the same contents under the other key. -/
def Holds (key : Option Bytes) (node : Tree) (key' : Option Bytes) (node' : Tree) : Prop :=
  ∀ path plain, plainAt c key node path = some (some plain) →
    plainAt c key' node' path = some (some plain)

/-- A file as it is written with a key. -/
def Sealed (key data plain : Bytes) : Prop :=
  ∃ nonce, nonce.length = 12 ∧ data = nonce ++ c.encrypt key nonce plain

/-- A configuration directory that was written with a key. -/
structure Sound (key : Bytes) (node : Tree) : Prop where
  proper : Proper node
  visible : ∀ path entries, get node path = some (.dir entries) →
    ∀ entry ∈ entries, isHidden entry.1 = false
  written : ∀ path data, fileAt node path = some data → ∃ plain, Sealed c key data plain

def NoFiles (entries : Entries) : Prop := ∀ path, fileAt (.dir entries) path = none

variable {c} {key data plain : Bytes}

theorem Sealed.length (h : Sealed c key data plain) : data.length = 28 + plain.length := by
  obtain ⟨nonce, hnonce, rfl⟩ := h
  rw [length_append, hnonce, c.encrypt_length]
  omega

theorem Sealed.decode (h : Sealed c key data plain) :
    Storage.decode c (some key) data = some plain := by
  have hlen := h.length
  obtain ⟨nonce, hnonce, rfl⟩ := h
  change (if 12 < (nonce ++ c.encrypt key nonce plain).length then _ else none) = _
  rw [if_pos (by omega), take_left' hnonce, drop_left' hnonce]
  exact c.decrypt_encrypt key nonce plain

theorem sound_child {node child : Tree} {path : Path} (h : Sound c key node)
    (hget : get node path = some child) : Sound c key child := by
  have hall (path' : Path) : get node (path ++ path') = get child path' := by
    rw [get_append, hget]
    rfl
  refine ⟨proper_child h.proper hget, fun path' entries hentries => ?_, fun path' data hdata => ?_⟩
  · exact h.visible (path ++ path') entries ((hall path').trans hentries)
  refine h.written (path ++ path') data ?_
  unfold fileAt at hdata ⊢
  rw [hall]
  exact hdata

theorem plainAt_cons (key : Option Bytes) (entries : Entries) (name : String) (rest : Path) :
    plainAt c key (.dir entries) (name :: rest) =
      (entries.lookup name).bind fun child => plainAt c key child rest := by
  unfold plainAt
  rw [fileAt_cons]
  cases entries.lookup name with
  | none => rfl
  | some child => rfl

theorem proper_nil : Proper (.dir [] : Tree) := proper_dir.mpr ⟨nodup_nil, nofun⟩

theorem proper_cons {name : String} {node : Tree} {entries : Entries}
    (hname : name ∉ entries.map Prod.fst) (hnode : Proper node)
    (hentries : Proper (.dir entries : Tree)) : Proper (.dir ((name, node) :: entries)) := by
  obtain ⟨hnodup, hchildren⟩ := proper_dir.mp hentries
  refine proper_dir.mpr ⟨nodup_cons.mpr ⟨hname, hnodup⟩, fun other child hchild => ?_⟩
  rw [lookup_cons] at hchild
  by_cases heq : other = name
  · rw [heq, beq_self_eq_true] at hchild
    cases hchild
    exact hnode
  · rw [beq_false_of_ne heq] at hchild
    exact hchildren other child hchild

theorem proper_file (data : Bytes) : Proper (Node.file data : Tree) := by
  intro path entries h
  cases path with
  | nil => cases h
  | cons name rest => cases h

theorem sound_nil : Sound c key (.dir []) := by
  refine ⟨proper_nil, fun path entries hget => ?_, fun path data hdata => ?_⟩
  · cases path with
    | nil =>
      cases hget
      exact nofun
    | cons name rest => cases hget
  · cases path with
    | nil => cases hdata
    | cons name rest => cases hdata

theorem sound_file (h : Sealed c key data plain) : Sound c key (.file data) := by
  refine ⟨proper_file data, fun path entries hget => ?_, fun path data' hdata' => ?_⟩
  · cases path with
    | nil => cases hget
    | cons name rest => cases hget
  cases path with
  | nil =>
    cases hdata'
    exact ⟨plain, h⟩
  | cons name rest => cases hdata'

theorem sound_cons {name : String} {node : Tree} {entries : Entries}
    (hname : name ∉ entries.map Prod.fst) (hvisible : isHidden name = false)
    (hnode : Sound c key node) (hentries : Sound c key (.dir entries)) :
    Sound c key (.dir ((name, node) :: entries)) := by
  refine ⟨proper_cons hname hnode.proper hentries.proper, fun path entries' hget => ?_,
    fun path data hdata => ?_⟩
  · cases path with
    | nil =>
      cases hget
      intro entry hentry
      rcases mem_cons.mp hentry with rfl | hentry
      · exact hvisible
      · exact hentries.visible [] entries rfl entry hentry
    | cons other rest =>
      by_cases heq : other = name
      · simp only [FileTree.get, heq, lookup_cons, beq_self_eq_true] at hget
        exact hnode.visible rest entries' hget
      · refine hentries.visible (other :: rest) entries' ?_
        simp only [FileTree.get, lookup_cons, beq_false_of_ne heq] at hget ⊢
        exact hget
  · cases path with
    | nil => cases hdata
    | cons other rest =>
      rw [fileAt_cons, lookup_cons] at hdata
      by_cases heq : other = name
      · rw [heq, beq_self_eq_true] at hdata
        exact hnode.written rest data hdata
      rw [beq_false_of_ne heq] at hdata
      refine hentries.written (other :: rest) data ?_
      rw [fileAt_cons]
      exact hdata

section Growing

variable {k k' : Option Bytes} {done done' more more' : Entries} {name : String} {node node' : Tree}

/-- A directory in two parts, of which the first one counts for its names. -/
theorem fileAt_append (done more : Entries) (name : String) (rest : Path) :
    fileAt (.dir (done ++ more)) (name :: rest) =
      if (done.lookup name).isSome then fileAt (.dir done) (name :: rest)
      else fileAt (.dir more) (name :: rest) := by
  rw [fileAt_cons, fileAt_cons, fileAt_cons, lookup_append]
  cases done.lookup name with
  | none => rfl
  | some child => rfl

theorem plainAt_append (done more : Entries) (name : String) (rest : Path) :
    plainAt c k (.dir (done ++ more)) (name :: rest) =
      if (done.lookup name).isSome then plainAt c k (.dir done) (name :: rest)
      else plainAt c k (.dir more) (name :: rest) := by
  unfold plainAt
  rw [fileAt_append]
  split
  · rfl
  · rfl

variable {data : Bytes}

theorem isSome_of_fileAt {rest : Path} (h : fileAt (.dir done) (name :: rest) = some data) :
    (done.lookup name).isSome = true := by
  rw [fileAt_cons] at h
  obtain ⟨child, hchild, -⟩ := Option.bind_eq_some_iff.mp h
  exact Option.isSome_of_eq_some hchild

theorem isSome_of_plainAt {rest : Path} {plain : Option Bytes}
    (h : plainAt c k (.dir done) (name :: rest) = some plain) :
    (done.lookup name).isSome = true := by
  obtain ⟨data, hdata, -⟩ := Option.map_eq_some_iff.mp h
  exact isSome_of_fileAt hdata

theorem eq_of_lookup_single {other : String}
    (h : (List.lookup other [(name, node)]).isSome = true) : other = name := by
  by_contra hne
  rw [lookup_cons, beq_false_of_ne hne] at h
  cases h

/-- More entries on both sides. -/
theorem holds_append (hnames : ∀ other, done.lookup other = none → done'.lookup other = none)
    (hapart : ∀ other, (more.lookup other).isSome = true → done.lookup other = none)
    (hapart' : ∀ other, (more'.lookup other).isSome = true → done.lookup other = none) :
    Holds c k (.dir (done ++ more)) k' (.dir (done' ++ more')) ↔
      Holds c k (.dir done) k' (.dir done') ∧ Holds c k (.dir more) k' (.dir more') := by
  constructor
  · intro h
    refine ⟨fun path plain hplain => ?_, fun path plain hplain => ?_⟩
    · cases path with
      | nil => cases hplain
      | cons other rest =>
        have hfound := isSome_of_plainAt hplain
        have hplain' := h (other :: rest) plain (by rwa [plainAt_append, if_pos hfound])
        rw [plainAt_append] at hplain'
        split at hplain'
        · exact hplain'
        · rw [hapart' other (isSome_of_plainAt hplain')] at hfound
          cases hfound
    · cases path with
      | nil => cases hplain
      | cons other rest =>
        have hnone := hapart other (isSome_of_plainAt hplain)
        have hplain' := h (other :: rest) plain
        rw [plainAt_append, plainAt_append, hnone, hnames other hnone] at hplain'
        exact hplain' hplain
  · intro h path plain hplain
    cases path with
    | nil => cases hplain
    | cons other rest =>
      rw [plainAt_append] at hplain ⊢
      split at hplain
      · have hplain' := h.1 _ _ hplain
        rw [if_pos (isSome_of_plainAt hplain')]
        exact hplain'
      · rename_i hnot
        rw [hnames other (Option.not_isSome_iff_eq_none.mp hnot)]
        exact h.2 _ _ hplain

theorem holds_single : Holds c k (.dir [(name, node)]) k' (.dir [(name, node')]) ↔
    Holds c k node k' node' := by
  have hself (key : Option Bytes) (n : Tree) (rest : Path) :
      plainAt c key (.dir [(name, n)]) (name :: rest) = plainAt c key n rest := by
    rw [plainAt_cons, lookup_cons_self]
    rfl
  refine ⟨fun h path plain hplain => ?_, fun h path plain hplain => ?_⟩
  · rw [← hself] at hplain ⊢
    exact h _ _ hplain
  cases path with
  | nil => cases hplain
  | cons other rest =>
    obtain rfl := eq_of_lookup_single (isSome_of_plainAt hplain)
    rw [hself] at hplain ⊢
    exact h _ _ hplain

/-- One more entry on both sides. -/
theorem holds_snoc (hnames : ∀ other, done.lookup other = none → done'.lookup other = none)
    (hnew : done.lookup name = none) :
    Holds c k (.dir (done ++ [(name, node)])) k' (.dir (done' ++ [(name, node')])) ↔
      Holds c k (.dir done) k' (.dir done') ∧ Holds c k node k' node' := by
  refine (holds_append hnames ?_ ?_).trans (and_congr_right' holds_single)
  all_goals exact fun other hother => eq_of_lookup_single hother ▸ hnew

theorem lookup_apart {other : String} (hnodup : ((done ++ more).map Prod.fst).Nodup)
    (h : (more.lookup other).isSome = true) : done.lookup other = none := by
  obtain ⟨child, hchild⟩ := Option.isSome_iff_exists.mp h
  cases hdone : done.lookup other with
  | none => rfl
  | some child' =>
    exfalso
    rw [map_append, nodup_append] at hnodup
    obtain ⟨_, _, hsplit, _⟩ := lookup_eq_some_iff.mp hchild
    obtain ⟨_, _, hsplit', _⟩ := lookup_eq_some_iff.mp hdone
    refine hnodup.2.2 other ?_ other ?_ rfl
    · rw [hsplit']
      simp
    · rw [hsplit]
      simp

theorem fileAt_unread {path : Path} (hnodup : ((done ++ more).map Prod.fst).Nodup)
    (h : fileAt (.dir more) path = some data) : fileAt (.dir (done ++ more)) path = some data := by
  cases path with
  | nil => cases h
  | cons other rest =>
    rw [fileAt_append, lookup_apart hnodup (isSome_of_fileAt h)]
    exact h

theorem fileAt_read {path : Path} (h : fileAt (.dir done) path = some data) :
    fileAt (.dir (done ++ more)) path = some data := by
  cases path with
  | nil => cases h
  | cons other rest =>
    rw [fileAt_append, if_pos (isSome_of_fileAt h)]
    exact h

theorem fileAt_snoc {path : Path} (h : fileAt (.dir (done ++ [(name, node)])) path = some data) :
    fileAt (.dir done) path = some data ∨
      ∃ rest, path = name :: rest ∧ fileAt node rest = some data := by
  cases path with
  | nil => cases h
  | cons other rest =>
    rw [fileAt_append] at h
    split at h
    · exact Or.inl h
    rw [fileAt_cons, lookup_cons] at h
    by_cases hname : other = name
    · subst hname
      rw [beq_self_eq_true] at h
      exact Or.inr ⟨rest, rfl, h⟩
    · rw [beq_false_of_ne hname] at h
      cases h

/-- Entries that were not read are missed only if there are files in them. -/
theorem holds_unread (hnames : ∀ other, done.lookup other = none → done'.lookup other = none)
    (hnodup : ((done ++ more).map Prod.fst).Nodup)
    (hreadable : ∀ path data, fileAt (.dir more) path = some data →
      ∃ plain, decode c k data = some plain) :
    Holds c k (.dir (done ++ more)) k' (.dir done') ↔
      Holds c k (.dir done) k' (.dir done') ∧ NoFiles more := by
  have hmissed : Holds c k (.dir more) k' (.dir []) ↔ NoFiles more := by
    refine ⟨fun h path => ?_, fun h path plain hplain => ?_⟩
    · cases hfile : fileAt (.dir more) path with
      | none => rfl
      | some data =>
        obtain ⟨plain, hplain⟩ := hreadable path data hfile
        have hpath := h path plain (by rw [plainAt, hfile, Option.map_some, hplain])
        cases path with
        | nil => cases hpath
        | cons other rest => cases hpath
    · rw [plainAt, h path] at hplain
      cases hplain
  rw [← hmissed]
  have hall := @holds_append c k k' done done' more [] hnames (fun _ => lookup_apart hnodup) nofun
  rw [append_nil] at hall
  exact hall

end Growing

end Contents

section Writing

variable {disk : Tree} {target : String} {rest : Path} {node : Tree}

theorem parent_of_room (hroom : Room disk (target :: rest))
    (hrest : rest ≠ []) : ∃ child, get disk [target] = some child := by
  obtain ⟨parent, name, entries, hpath, hparent⟩ := hroom
  cases parent with
  | nil => exact absurd (List.cons.inj hpath).2 hrest
  | cons first parent =>
    obtain ⟨rfl, -⟩ := List.cons.inj hpath
    rw [← singleton_append, get_append] at hparent
    cases hchild : get disk [target] with
    | none =>
      rw [hchild] at hparent
      cases hparent
    | some child => exact ⟨child, rfl⟩

theorem near_put {disk₀ : Tree} (h : Near disk₀ [target] disk)
    (hroom : Room disk (target :: rest)) :
    Near disk₀ [target] (put disk (target :: rest) (some node)) := by
  by_cases hrest : rest = []
  · subst hrest
    exact Or.inr ⟨some node, h.put_self⟩
  · obtain ⟨child, hchild⟩ := parent_of_room hroom hrest
    exact Or.inr ⟨_, h.put_below hchild (by simp) hrest⟩

/-- What may be put below a sub-directory. -/
def Fits (rest : Path) (node : Tree) : Prop :=
  (rest = [] → Subdir node) ∧ (rest = ["meshlink.conf"] → node.contents ≠ none)

theorem fits_file (data : Bytes) (hrest : rest ≠ []) : Fits rest (.file data) :=
  ⟨fun hnil => absurd hnil hrest, fun _ => nofun⟩

theorem subdir_put (h : ∀ node, get disk [target] = some node → Subdir node)
    (hroom : Room disk (target :: rest)) (hfits : Fits rest node) :
    ∀ node', get (put disk (target :: rest) (some node)) [target] = some node' → Subdir node' := by
  intro node' hnode
  by_cases hrest : rest = []
  · subst hrest
    rw [get_put_self hroom] at hnode
    cases hnode
    exact hfits.1 rfl
  obtain ⟨child, hchild⟩ := parent_of_room hroom hrest
  obtain ⟨entries, rfl, hmain⟩ := h child hchild
  rw [← singleton_append, put_append hchild (by simp) hrest,
    get_put_self (room_of_get hchild (by simp))] at hnode
  cases hnode
  cases rest with
  | nil => exact absurd rfl hrest
  | cons name more =>
    refine ⟨_, rfl, fun sub hsub => ?_⟩
    by_cases hname : name = "meshlink.conf"
    · subst hname
      rw [lookup_assign_self] at hsub
      by_cases hmore : more = []
      · subst hmore
        rw [if_pos rfl] at hsub
        cases hsub
        exact hfits.2 rfl rfl
      rw [if_neg hmore] at hsub
      obtain ⟨old, hold, hput⟩ := Option.map_eq_some_iff.mp hsub
      cases old with
      | dir sub' => exact hmain sub' hold
      | file data =>
        cases more with
        | nil => exact hmore rfl
        | cons _ _ => cases hput
    · rw [lookup_assign_ne hname] at hsub
      exact hmain sub hsub

theorem hasParent_of_room {path : Path} (h : Room disk path) : hasParent disk path = true := by
  obtain ⟨parent, name, entries, rfl, hparent⟩ := h
  unfold hasParent
  rw [dropLast_concat, hparent]
  simp

end Writing

section Reading

variable {c : Cipher} {e : Env} {bad : Failure → Prop} {Mid : Base → Prop} {b : Base}
  {fs : List Failure} {path : Path} {data : Bytes}

theorem does_fopenRead (hfile : fileAt b.disk path = some data) (hmid : Mid b)
    (hblame : Blames e bad path) :
    Does e bad Mid false (Is b fs) (succeeds (fopenRead e path))
      fun ok w => ok = true ∧ Is b fs w := by
  refine Does.succeeds (does_inspect (a := ()) ?_ hmid fun n => hblame _ n nofun nofun)
  rw [get_of_fileAt hfile]

theorem does_configReadFile (key : Option Bytes) (hfile : fileAt b.disk path = some data)
    (hdata : data ≠ []) (hmid : Mid b) (hblame : Blames e bad path) :
    Does e bad Mid none (Is b fs) (configReadFile c e path key)
      fun config w => config = decode c key data ∧ Is b fs w := by
  have hseek : Does e bad Mid false (Is b fs) (succeeds (fseek e path))
      fun ok w => ok = true ∧ Is b fs w :=
    Does.succeeds (does_inspect rfl hmid fun n => hblame _ n nofun nofun)
  refine Does.unless hseek ?_
  refine Does.gets_bind (a := data) (fun w hw => ?_) ?_
  · have hdisk : w.disk = b.disk := congrArg Base.disk hw.base
    rw [hdisk, hfile]
    rfl
  have hempty : ¬ data.isEmpty = true := by simpa using hdata
  rw [if_neg hempty]
  refine Does.unless hseek ?_
  refine Does.bind_eq (does_inspect (a := data) ?_ hmid fun n => hblame _ n nofun nofun) ?_
    (fun w hw => ⟨rfl, hw⟩)
  · rw [hfile]
  · exact Does.pure _ fun w hw => ⟨rfl, hw⟩

end Reading

/-- A copy of one sub-directory to another, and the failures that are to blame when it
does not succeed. -/
structure Job where
  c : Cipher
  e : Env
  bad : Failure → Prop
  source : String
  target : String
  key : Bytes
  newKey : Bytes
  start : Base
  apart : source ≠ target
  failed : ∀ f, bad f → ¬ Faultless e
  blames : ∀ path, Blames e bad (source :: path)
  blamesBelow : BlamesBelow e bad [target]

/-- What the closed files tell about the copy: a file that was closed is complete, and any
other file is empty or was there before. -/
structure Ledger (j : Job) (b : Base) : Prop where
  complete : ∀ path, j.target :: path ∈ b.closed → ∃ data plain data',
    fileAt j.start.disk (j.source :: path) = some data ∧ Sealed j.c j.key data plain ∧
      fileAt b.disk (j.target :: path) = some data' ∧ Sealed j.c j.newKey data' plain
  other : ∀ path data, j.target :: path ∉ b.closed →
    fileAt b.disk (j.target :: path) = some data →
      data = [] ∨ fileAt j.start.disk (j.target :: path) = some data

/-- Nothing has been written outside of the target. -/
structure Writing (j : Job) (b : Base) : Prop where
  near : Near j.start.disk [j.target] b.disk
  proper : Proper b.disk
  shape : ∀ node, get b.disk [j.target] = some node → Subdir node
  stream : ∀ path buffer, b.stream = some (path, buffer) → ∃ rest, path = j.target :: rest
  configKey : b.configKey = j.start.configKey
  renamed : b.renamed = j.start.renamed
  ledger : Faultless j.e → Ledger j b

/-- Something was put below the target. -/
def placed (j : Job) (b : Base) (rest : Path) (node : Tree) (closed : List Path) : Base :=
  {b with disk := put b.disk (j.target :: rest) (some node), closed := closed}

/-- Nothing is open, and a new file has room below the target. -/
structure Vacant (j : Job) (b : Base) (rest : Path) : Prop where
  writing : Writing j b
  stream : b.stream = none
  nonempty : rest ≠ []
  room : Room b.disk (j.target :: rest)
  free : get b.disk (j.target :: rest) = none

section Targets

variable {j : Job} {b : Base} {rest path : Path} {node : Tree} {closed : List Path}

theorem get_placed (hroom : Room b.disk (j.target :: rest)) :
    get (placed j b rest node closed).disk (j.target :: rest) = some node :=
  get_put_self hroom

theorem fileAt_placed (hroom : Room b.disk (j.target :: rest)) (more : Path) :
    fileAt (placed j b rest node closed).disk (j.target :: (rest ++ more)) = fileAt node more :=
  fileAt_append_of_get more (get_placed hroom)

theorem fileAt_placed_of_not (h : ¬ rest <+: path) :
    fileAt (placed j b rest node closed).disk (j.target :: path) =
      fileAt b.disk (j.target :: path) :=
  fileAt_put_of_not fun hpath => h ((prefix_cons_inj _).mp hpath)

/-- Nothing was closed where nothing is. -/
theorem Ledger.not_prefix (h : Ledger j b) (hfree : get b.disk (j.target :: rest) = none)
    (hclosed : j.target :: path ∈ b.closed) : ¬ rest <+: path := by
  rintro ⟨more, rfl⟩
  obtain ⟨data, plain, data', -, -, hdata', -⟩ := h.complete _ hclosed
  rw [← cons_append, fileAt_append_of_none more hfree] at hdata'
  cases hdata'

/-- An empty file or directory was made. -/
theorem Ledger.made (h : Ledger j b) (hroom : Room b.disk (j.target :: rest))
    (hfree : get b.disk (j.target :: rest) = none)
    (hempty : ∀ more data, fileAt node more = some data → data = []) :
    Ledger j (placed j b rest node b.closed) := by
  refine ⟨fun path hclosed => ?_, fun path data hnot hdata => ?_⟩
  · rw [fileAt_placed_of_not (h.not_prefix hfree hclosed)]
    exact h.complete path hclosed
  by_cases hpath : rest <+: path
  · obtain ⟨more, rfl⟩ := hpath
    rw [fileAt_placed hroom] at hdata
    exact Or.inl (hempty more data hdata)
  · rw [fileAt_placed_of_not hpath] at hdata
    exact h.other path data hnot hdata

/-- The copy of a file was closed. -/
theorem Ledger.filed {data plain data' : Bytes} (h : Ledger j b)
    (hroom : Room b.disk (j.target :: rest)) (hfree : get b.disk (j.target :: rest) = none)
    (hfile : fileAt j.start.disk (j.source :: rest) = some data)
    (hdata : Sealed j.c j.key data plain) (hdata' : Sealed j.c j.newKey data' plain) :
    Ledger j (placed j b rest (.file data') (b.closed ++ [j.target :: rest])) := by
  refine ⟨fun path hclosed => ?_, fun path other hnot hother => ?_⟩
  · rcases mem_append.mp hclosed with hold | hnew
    · rw [fileAt_placed_of_not (h.not_prefix hfree hold)]
      exact h.complete path hold
    · obtain rfl := (List.cons.inj (mem_singleton.mp hnew)).2
      refine ⟨data, plain, data', hfile, hdata, ?_, hdata'⟩
      unfold fileAt
      rw [get_placed hroom]
  by_cases hpath : rest <+: path
  · obtain ⟨more, rfl⟩ := hpath
    rw [fileAt_placed hroom] at hother
    cases more with
    | nil => exact absurd (mem_append_right _ (by simp)) hnot
    | cons name more => cases hother
  · rw [fileAt_placed_of_not hpath] at hother
    exact h.other path other (fun hold => hnot (mem_append_left _ hold)) hother

theorem Writing.placed (h : Writing j b) (hroom : Room b.disk (j.target :: rest))
    (hfits : Fits rest node) (hnode : Proper node)
    (hledger : Faultless j.e → Ledger j b → Ledger j (placed j b rest node closed)) :
    Writing j (placed j b rest node closed) := by
  refine ⟨near_put h.near hroom, proper_put h.proper ?_, subdir_put h.shape hroom hfits, h.stream,
    h.configKey, h.renamed, fun hcalm => hledger hcalm (h.ledger hcalm)⟩
  intro node' heq
  cases heq
  exact hnode

theorem Writing.withStream {stream : Option (Path × Bytes)} (h : Writing j b)
    (hstream : ∀ path buffer, stream = some (path, buffer) → ∃ rest, path = j.target :: rest) :
    Writing j {b with stream := stream} :=
  ⟨h.near, h.proper, h.shape, hstream, h.configKey, h.renamed,
    fun hcalm => ⟨(h.ledger hcalm).complete, (h.ledger hcalm).other⟩⟩

/-- Only before anything was closed may something be removed. -/
theorem Writing.pruned {disk : Tree} (h : Writing j b) (hclosed : b.closed = [])
    (hpruned : Pruned b.disk [j.target] disk) : Writing j (remaining b disk) := by
  refine ⟨?_, hpruned.proper, subdir_within hpruned.within h.shape, h.stream, h.configKey,
    h.renamed, fun hcalm => ⟨fun path hmem => ?_, fun path data hnot hdata => ?_⟩⟩
  · rcases hpruned.near with hsame | ⟨value, hput⟩
    · rw [remaining, hsame]
      exact h.near
    · exact Or.inr ⟨value, hput.trans h.near.put_self⟩
  · rw [remaining, hclosed] at hmem
    cases hmem
  · exact (h.ledger hcalm).other path data hnot (fileAt_of_within hpruned.within hdata)

theorem own_stream (target : String) (rest : Path) (buffer : Bytes) :
    ∀ path buffer', some (target :: rest, buffer) = some (path, buffer') →
      ∃ rest, path = target :: rest := by
  intro path buffer' heq
  cases heq
  exact ⟨rest, rfl⟩

theorem Writing.not_file {data : Bytes} (h : Writing j b)
    (hget : get b.disk (j.target :: rest) = some (.file data)) : rest ≠ [] := by
  intro hrest
  subst hrest
  obtain ⟨entries, heq, -⟩ := h.shape _ hget
  cases heq

/-- After a failure, data that is flushed stays below the target. -/
theorem Writing.flush {w : World} (n : Option ℕ) (hfaulty : ¬ Faultless j.e)
    (h : Writing j (base w)) : Writing j (base (Storage.flush n w)) := by
  unfold Storage.flush
  cases hstream : w.stream with
  | none => exact h
  | some open' =>
    obtain ⟨path, buffer⟩ := open'
    obtain ⟨rest, rfl⟩ := h.stream path buffer hstream
    have hkept := own_stream j.target rest []
    simp only [appendTo]
    cases hget : FileTree.get w.disk (j.target :: rest) with
    | none => exact h.withStream hkept
    | some node =>
      cases node with
      | dir entries => exact h.withStream hkept
      | file old =>
        exact (h.placed (room_of_get hget (by simp)) (fits_file _ (h.not_file hget)) (proper_file _)
          fun hcalm => absurd hcalm hfaulty).withStream hkept

theorem Writing.closing {w : World} (n : Option ℕ) (closed : List Path) (hfaulty : ¬ Faultless j.e)
    (h : Writing j (base w)) :
    Writing j (base {Storage.flush n w with stream := none, closed := closed}) :=
  have hflush := h.flush n hfaulty
  ⟨hflush.near, hflush.proper, hflush.shape, nofun, hflush.configKey, hflush.renamed,
    fun hcalm => absurd hcalm hfaulty⟩

/-- A file has been created and not yet closed. -/
def opened (j : Job) (b : Base) (rest : Path) (buffer : Bytes) : Base :=
  {placed j b rest (.file []) b.closed with stream := some (j.target :: rest, buffer)}

/-- The file was closed with its contents. -/
def filed (j : Job) (b : Base) (rest : Path) (data : Bytes) : Base :=
  placed j b rest (.file data) (b.closed ++ [j.target :: rest])

theorem writing_opened (h : Vacant j b rest) (buffer : Bytes) :
    Writing j (opened j b rest buffer) := by
  refine (h.writing.placed h.room (fits_file [] h.nonempty) (proper_file []) fun _ hledger =>
    hledger.made h.room h.free ?_).withStream (own_stream j.target rest buffer)
  intro more data hdata
  cases more with
  | nil =>
    cases hdata
    rfl
  | cons name more => cases hdata

theorem writing_filed {data plain data' : Bytes} (h : Vacant j b rest)
    (hfile : fileAt b.disk (j.source :: rest) = some data)
    (hdata : Sealed j.c j.key data plain) (hdata' : Sealed j.c j.newKey data' plain) :
    Writing j (filed j b rest data') := by
  have hstart : fileAt j.start.disk (j.source :: rest) = some data := by
    unfold fileAt
    rw [← h.writing.near.get_of_ne j.apart.symm, get_of_fileAt hfile]
  exact h.writing.placed h.room (fits_file _ h.nonempty) (proper_file data') fun _ hledger =>
    hledger.filed h.room h.free hstart hdata hdata'

end Targets

section Copying

variable {j : Job} {b : Base} {fs : List Failure} {rest : Path} {data plain data' : Bytes}

/-- A step of the job succeeds, or a call has failed that is to blame. -/
abbrev Job.Does (j : Job) (P : World → Prop) (x : Command World Bool) (Q : World → Prop) : Prop :=
  StorageRules.Does j.e j.bad (Writing j) false P x fun ok w => ok = true ∧ Q w

theorem does_fopenWrite (h : Vacant j b rest) :
    j.Does (Is b fs) (succeeds (fopenWrite j.e (j.target :: rest)))
      (Is (opened j b rest []) fs) := by
  refine Does.succeeds (a := ()) (does_syscall (fun w hw => ?_) (fun w hw _ => hw ▸ h.writing)
    (writing_opened h []) fun n => j.blamesBelow.blames rest _ n nofun nofun)
  subst hw
  refine ⟨{w with
    disk := put w.disk (j.target :: rest) (some (.file []))
    stream := some (j.target :: rest, [])}, ?_, rfl, rfl⟩
  simp only [show get w.disk (j.target :: rest) = none from h.free,
    show hasParent w.disk (j.target :: rest) = true from hasParent_of_room h.room, if_true]

theorem does_fwrite {buffer more : Bytes} (h : Vacant j b rest) (hmore : more ≠ []) :
    j.Does (Is (opened j b rest buffer) fs) (succeeds (fwrite j.e (j.target :: rest) more))
      (Is (opened j b rest (buffer ++ more)) fs) := by
  refine Does.succeeds (a := ()) (does_syscall (fun w hw => ?_)
    (fun w hw _ => hw ▸ writing_opened h buffer) (writing_opened h _)
    fun n => j.blamesBelow.blames rest _ n nofun nofun)
  have hempty : ¬ more.isEmpty = true := by simpa using hmore
  refine ⟨{w with stream := some (j.target :: rest, buffer ++ more)}, ?_, ?_, rfl⟩
  · rw [if_neg hempty, show w.stream = some (j.target :: rest, buffer) from
      congrArg Base.stream hw]
    rfl
  · change {base w with stream := some (j.target :: rest, buffer ++ more)} = _
    rw [hw]
    rfl

theorem flush_failures (n : Option ℕ) (w : World) : (Storage.flush n w).failures = w.failures := by
  unfold Storage.flush
  cases w.stream with
  | none => rfl
  | some _ => rfl

theorem does_fcloseWrite (h : Vacant j b rest) (hfiled : Writing j (filed j b rest data')) :
    j.Does (Is (opened j b rest data') fs) (succeeds (fcloseWrite j.e (j.target :: rest)))
      (Is (filed j b rest data') fs) := by
  refine Does.succeeds (a := ()) (does_syscall (fun w hw => ⟨_, rfl, ?_, flush_failures none w⟩)
    (fun w hw hfails => Writing.closing _ _ (not_faultless hfails) (hw ▸ writing_opened h data'))
    hfiled fun n => j.blamesBelow.blames rest _ n nofun nofun)
  obtain ⟨disk, stream, configKey, ops, failures, renamed, closed⟩ := w
  obtain ⟨bdisk, bstream, bkey, brenamed, bclosed⟩ := b
  have hstream : bstream = none := h.stream
  have hroom : Room bdisk (j.target :: rest) := h.room
  cases hw
  simp only [Storage.flush, appendTo, get_put_self hroom, base, filed, placed, put_put_self,
    nil_append, Option.getD_none, take_length, hstream]

/-- Closing the file after a failed write. -/
theorem fcloseWrite_after_failure (path : Path) :
    Triple (Dying j.e (Writing j)) (Failing j.bad (Writing j)) (fcloseWrite j.e path)
      fun _ w => Failing j.bad (Writing j) w := by
  intro w hw
  obtain ⟨f, -, hbad⟩ := hw.2
  have hfaulty := j.failed f hbad
  refine after_failure (fun w a w' hrun => ?_) (fun w hmid => hmid.closing _ _ hfaulty) w hw
  cases hrun
  exact ⟨flush_failures none w, fun hmid => hmid.closing none _ hfaulty⟩

/-- The file is sealed with a fresh nonce. -/
theorem does_configWriteFile (h : Vacant j b rest) :
    j.Does (Is (opened j b rest []) fs)
      (configWriteFile j.c j.e (j.target :: rest) plain (some j.newKey)) fun w =>
        ∃ data', Sealed j.c j.newKey data' plain ∧ Is (opened j b rest data') fs w := by
  intro w hw
  let nonce := (j.e.nonce w.ops).toList
  have hnonce : nonce.length = 12 := by simp [nonce]
  have hnonce' : nonce ≠ [] := by
    intro hnil
    rw [hnil] at hnonce
    cases hnonce
  have hbody : j.c.encrypt j.newKey nonce plain ≠ [] := by
    intro hnil
    have hlen := j.c.encrypt_length j.newKey nonce plain
    rw [hnil] at hlen
    simp at hlen
  have hboth : j.Does (Is (opened j b rest []) fs) (do
      if ← succeeds (fwrite j.e (j.target :: rest) nonce) then
        succeeds (fwrite j.e (j.target :: rest) (j.c.encrypt j.newKey nonce plain))
      else pure false) fun w =>
        ∃ data', Sealed j.c j.newKey data' plain ∧ Is (opened j b rest data') fs w := by
    refine Does.when (does_fwrite h hnonce') ?_
    refine Does.mono (does_fwrite h hbody) (fun _ hw => hw) ?_
    intro ok w hw
    exact ⟨hw.1, _, ⟨nonce, hnonce, rfl⟩, hw.2⟩
  exact hboth w hw

theorem does_copyFile (h : Vacant j b rest) (hfile : fileAt b.disk (j.source :: rest) = some data)
    (hdata : Sealed j.c j.key data plain) :
    j.Does (Is b fs) (copyFile j.c j.e (j.source :: rest) (some j.key) (j.target :: rest)
      (some j.newKey)) fun w => ∃ data', Sealed j.c j.newKey data' plain ∧
        Writing j (filed j b rest data') ∧ Is (filed j b rest data') fs w := by
  have hb := h.writing
  have hblame := j.blames rest
  have hread : Does j.e j.bad (Writing j) none (Is b fs)
      (configReadFile j.c j.e (j.source :: rest) (some j.key)) fun config w =>
        config = some plain ∧ Is b fs w := by
    have hnonempty : data ≠ [] := by
      intro hnil
      have hlen := hdata.length
      rw [hnil, length_nil] at hlen
      omega
    rw [← hdata.decode]
    exact does_configReadFile (some j.key) hfile hnonempty hb hblame
  refine Does.unless (Does.succeeds (does_inspect (stat_of_get (get_of_fileAt hfile)) hb
    fun n => hblame _ n nofun nofun)) ?_
  refine Does.unless (does_fopenRead hfile hb hblame) ?_
  refine Does.bind_eq hread ?_ (Triple.bind inspect_after_failure fun _ => fun w hw => ⟨rfl, hw⟩)
  refine Does.unless (Does.succeeds (does_inspect rfl hb fun n => hblame _ n nofun nofun)) ?_
  refine Does.unless (does_fopenWrite h) ?_
  refine Does.unlessThen (does_configWriteFile h) (fcloseWrite_after_failure _) ?_
  intro w hw
  obtain ⟨data', hdata', hw⟩ := hw
  have hfiled := writing_filed h hfile hdata hdata'
  have hget : get (filed j b rest data').disk (j.target :: rest) = some (.file data') :=
    get_placed h.room
  refine Does.unless (does_fcloseWrite h hfiled) ?_ w hw
  refine Does.mono (Does.succeeds (does_inspect (stat_of_get hget) hfiled
    fun n => j.blamesBelow.blames rest _ n nofun nofun)) (fun _ hw => hw) ?_
  intro ok w hw
  exact ⟨hw.1, data', hdata', hfiled, hw.2⟩

end Copying

end Meshlink.DirectoryCopy
