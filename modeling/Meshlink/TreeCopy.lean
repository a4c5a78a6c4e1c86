import Meshlink.DirectoryCopy

/-!
Copying a directory with everything below it. The loop over its entries adds one
entry to the copy for each that it has read. It passes over an entry without a type,
and it ends early, and reports success, when a readdir fails.
-/
namespace Meshlink.TreeCopy

open List Commands FileTree Storage StorageRules DirectoryRemoval DirectoryCopy

/-- A readdir that did not give all entries while a directory was copied. -/
def Silent (j : Job) (f : Failure) : Prop :=
  f.op.call = .readdir ∧ (∃ rest, f.op.path = j.source :: rest) ∧ ¬ Faultless j.e

/-- What was copied, and the failures that went unnoticed. -/
structure PartCopy (j : Job) (node node' : Tree) (silent : List Failure) : Prop where
  unnoticed : ∀ f ∈ silent, Silent j f
  complete : (∀ f ∈ silent, NoFiles f.unread) ↔ Holds j.c (some j.key) node (some j.newKey) node'
  written : ∀ path data', fileAt node' path = some data' → ∃ data plain,
    fileAt node path = some data ∧ Sealed j.c j.key data plain ∧ Sealed j.c j.newKey data' plain

section Parts

variable {j : Job} {node node' : Tree} {done done' unread : Entries} {silent silent' : List Failure}
  {name : String}

theorem partCopy_empty : PartCopy j (.dir []) (.dir []) [] := by
  refine ⟨nofun, ⟨fun _ path plain hplain => ?_, fun _ => nofun⟩, fun path data' hdata' => ?_⟩
  · cases path with
    | nil => cases hplain
    | cons name rest => cases hplain
  · cases path with
    | nil => cases hdata'
    | cons name rest => cases hdata'

theorem partCopy_file {data data' plain : Bytes} (h : Sealed j.c j.key data plain)
    (h' : Sealed j.c j.newKey data' plain) : PartCopy j (.file data) (.file data') [] := by
  refine ⟨nofun, ⟨fun _ path plain' hplain => ?_, fun _ => nofun⟩, fun path data'' hdata'' => ?_⟩
  · cases path with
    | nil =>
      change some (decode j.c (some j.key) data) = some (some plain') at hplain
      change some (decode j.c (some j.newKey) data') = some (some plain')
      rw [h.decode] at hplain
      rw [h'.decode]
      exact hplain
    | cons name rest => cases hplain
  · cases path with
    | nil =>
      cases hdata''
      exact ⟨data, plain, rfl, h, h'⟩
    | cons name rest => cases hdata''

theorem partCopy_snoc (hnames : ∀ other, done.lookup other = none → done'.lookup other = none)
    (hnew : done.lookup name = none) (h : PartCopy j (.dir done) (.dir done') silent)
    (h' : PartCopy j node node' silent') :
    PartCopy j (.dir (done ++ [(name, node)])) (.dir (done' ++ [(name, node')]))
      (silent ++ silent') := by
  refine ⟨fun f hf => ?_, ?_, fun path data' hdata' => ?_⟩
  · rcases mem_append.mp hf with hf | hf
    · exact h.unnoticed f hf
    · exact h'.unnoticed f hf
  · rw [holds_snoc hnames hnew, ← h.complete, ← h'.complete, forall_mem_append]
  rcases fileAt_snoc hdata' with hold | ⟨rest, rfl, hlast⟩
  · obtain ⟨data, plain, hdata, hsealed⟩ := h.written path data' hold
    exact ⟨data, plain, fileAt_read hdata, hsealed⟩
  obtain ⟨data, plain, hdata, hsealed⟩ := h'.written rest data' hlast
  refine ⟨data, plain, ?_, hsealed⟩
  rw [fileAt_cons, lookup_append, hnew, Option.none_or, lookup_cons,
    beq_self_eq_true]
  exact hdata

theorem partCopy_unread {f : Failure}
    (hnames : ∀ other, done.lookup other = none → done'.lookup other = none)
    (hnodup : ((done ++ f.unread).map Prod.fst).Nodup)
    (hreadable : ∀ path data, fileAt (.dir f.unread) path = some data →
      ∃ plain, Sealed j.c j.key data plain) (hsilent : Silent j f)
    (h : PartCopy j (.dir done) (.dir done') silent) :
    PartCopy j (.dir (done ++ f.unread)) (.dir done') (silent ++ [f]) := by
  have hdecodes : ∀ path data, fileAt (.dir f.unread) path = some data →
      ∃ plain, decode j.c (some j.key) data = some plain :=
    fun path data hdata => (hreadable path data hdata).imp fun _ hplain => hplain.decode
  refine ⟨fun f' hf' => ?_, ?_, fun path data' hdata' => ?_⟩
  · rcases mem_append.mp hf' with hf' | hf'
    · exact h.unnoticed f' hf'
    · rw [mem_singleton.mp hf']
      exact hsilent
  · rw [holds_unread hnames hnodup hdecodes, ← h.complete, forall_mem_append,
      forall_mem_singleton]
  · obtain ⟨data, plain, hdata, hsealed⟩ := h.written path data' hdata'
    exact ⟨data, plain, fileAt_read hdata, hsealed⟩

end Parts

section Copying

variable {j : Job} {b : Base} {fs : List Failure} {rest : Path} {entries : Entries}

/-- The directory has been copied. -/
def Copied (j : Job) (b : Base) (rest : Path) (fs : List Failure) (node : Tree) (w : World) :
    Prop :=
  ∃ node' silent closed, Is (placed j b rest node' closed) (fs ++ silent) w ∧
    Writing j (placed j b rest node' closed) ∧ PartCopy j node node' silent

/-- The entries in `done` have been copied or passed over. -/
def Looping (j : Job) (b : Base) (rest : Path) (fs : List Failure) (done : Entries) (w : World) :
    Prop :=
  ∃ done' silent closed, Is (placed j b rest (.dir done') closed) (fs ++ silent) w ∧
    Writing j (placed j b rest (.dir done') closed) ∧
      (∀ name, done.lookup name = none → done'.lookup name = none) ∧
        PartCopy j (.dir done) (.dir done') silent

theorem assign_some_new {done' : Entries} {name : String} (h : done'.lookup name = none)
    (node : Tree) : assign name (some node) done' = done' ++ [(name, node)] := by
  have hall : ∀ entry ∈ done', decide (entry.1 ≠ name) = true := by
    intro entry hentry
    rw [decide_eq_true_iff]
    intro heq
    exact bne_iff_ne.mp (lookup_eq_none_iff.mp h entry hentry) heq.symm
  simp only [assign, filter_eq_self.mpr hall, Option.toList_some, map_cons, map_nil]

/-- One more entry in a directory that was put somewhere. -/
theorem placed_child {done' : Entries} {name : String} {node : Tree} {closed closed' : List Path}
    (hroom : Room b.disk (j.target :: rest)) (hnew : done'.lookup name = none) :
    placed j (placed j b rest (.dir done') closed) (rest ++ [name]) node closed' =
      placed j b rest (.dir (done' ++ [(name, node)])) closed' := by
  have hget : get (placed j b rest (.dir done') closed).disk _ = _ := get_placed hroom
  unfold placed at hget ⊢
  congr 1
  rw [← cons_append, put_append hget (by simp) (by simp)]
  change put (put b.disk (j.target :: rest) _) (j.target :: rest)
    (some (.dir (assign name _ done'))) = _
  rw [put_put_self]
  simp only [if_true, assign_some_new hnew]

/-- Nothing that is copied from changes. -/
theorem source_placed (path : Path) (node : Tree) (closed : List Path) :
    get (placed j b rest node closed).disk (j.source :: path) = get b.disk (j.source :: path) :=
  get_put_of_ne j.apart.symm rest path

theorem lookup_of_split {done todo : Entries} {entry : String × Tree}
    (hsplit : entries = done ++ entry :: todo) (hnodup : (entries.map Prod.fst).Nodup) :
    done.lookup entry.1 = none ∧ entries.lookup entry.1 = some entry.2 := by
  have hnone : done.lookup entry.1 = none := by
    rw [hsplit, map_append, map_cons, nodup_append] at hnodup
    exact lookup_eq_none_iff.mpr fun hmem => hnodup.2.2 _ hmem _ mem_cons_self rfl
  refine ⟨hnone, ?_⟩
  rw [hsplit, lookup_append, hnone, lookup_cons, beq_self_eq_true]
  rfl

theorem names_snoc {done done' : Entries} {name : String} {node node' : Tree}
    (hnames : ∀ other, done.lookup other = none → done'.lookup other = none) (other : String)
    (h : (done ++ [(name, node)]).lookup other = none) :
    (done' ++ [(name, node')]).lookup other = none := by
  rw [lookup_append, Option.or_eq_none_iff] at h ⊢
  refine ⟨hnames other h.1, ?_⟩
  rw [lookup_cons] at h ⊢
  cases hname : other == name with
  | true =>
    rw [hname] at h
    cases h.2
  | false => rfl

/-- What is assumed of the call for a directory below. -/
def CopiesDir (j : Job) (copy : Path → Path → Command World Bool) (rest : Path) (sub : Entries) :
    Prop :=
  ∀ b fs, Vacant j b rest → get b.disk (j.source :: rest) = some (.dir sub) →
    j.Does (Is b fs) (copy (j.source :: rest) (j.target :: rest)) (Copied j b rest fs (.dir sub))

variable (hstream : b.stream = none) (hsource : get b.disk (j.source :: rest) = some (.dir entries))
  (hroom : Room b.disk (j.target :: rest))

include hstream hroom

theorem vacant_child {done' : Entries} {name : String} {closed : List Path}
    (hwriting : Writing j (placed j b rest (.dir done') closed)) (hnew : done'.lookup name = none) :
    Vacant j (placed j b rest (.dir done') closed) (rest ++ [name]) :=
  ⟨hwriting, hstream, by simp, room_child name (get_placed hroom),
    (get_child (get_placed hroom)).trans hnew⟩

include hsource

/-- A file is copied. -/
theorem does_copyFile_entry {done : Entries} {name : String} {data : Bytes}
    (hsound : Sound j.c j.key (.dir entries)) (hnew : done.lookup name = none)
    (hlookup : entries.lookup name = some (.file data)) :
    j.Does (Looping j b rest fs done)
      (copyFile j.c j.e (j.source :: rest ++ [name]) (some j.key) (j.target :: rest ++ [name])
        (some j.newKey)) (Looping j b rest fs (done ++ [(name, .file data)])) := by
  intro w hw
  obtain ⟨done', silent, closed, hw, hwriting, hnames, hpart⟩ := hw
  have hnew' := hnames name hnew
  have hfile : fileAt (placed j b rest (.dir done') closed).disk (j.source :: (rest ++ [name])) =
      some data := by
    unfold fileAt
    rw [source_placed, ← cons_append, (get_child hsource).trans hlookup]
  obtain ⟨plain, hplain⟩ := hsound.written [name] data (by
    rw [fileAt_cons, hlookup]
    rfl)
  refine Does.mono (does_copyFile (vacant_child hstream hroom hwriting hnew') hfile hplain)
    (fun _ hw => hw) ?_ w hw
  intro ok w hw
  obtain ⟨hok, data', hdata', hfiled, hw⟩ := hw
  unfold filed at hfiled hw
  rw [placed_child hroom hnew'] at hfiled hw
  refine ⟨hok, _, silent, _, hw, hfiled, names_snoc hnames, ?_⟩
  have hsnoc := partCopy_snoc hnames hnew hpart (partCopy_file hplain hdata')
  rw [append_nil] at hsnoc
  exact hsnoc

/-- A directory is copied and synced. -/
theorem does_copyDir_entry {copy : Path → Path → Command World Bool} {done sub : Entries}
    {name : String} (hnew : done.lookup name = none)
    (hlookup : entries.lookup name = some (.dir sub))
    (hdir : CopiesDir j copy (rest ++ [name]) sub) :
    j.Does (Looping j b rest fs done) (do
        if ← copy (j.source :: rest ++ [name]) (j.target :: rest ++ [name]) then
          syncPath j.e (j.target :: rest ++ [name])
        else pure false) (Looping j b rest fs (done ++ [(name, .dir sub)])) := by
  intro w hw
  obtain ⟨done', silent, closed, hw, hwriting, hnames, hpart⟩ := hw
  have hnew' := hnames name hnew
  have hvacant := vacant_child hstream hroom hwriting hnew'
  have hget : get (placed j b rest (.dir done') closed).disk (j.source :: (rest ++ [name])) =
      some (.dir sub) := by
    rw [source_placed, ← cons_append]
    exact (get_child hsource).trans hlookup
  refine Does.when (hdir _ (fs ++ silent) hvacant hget) ?_ w hw
  intro w hw
  obtain ⟨node', silent', closed', hw, hwriting', hpart'⟩ := hw
  refine Does.mono (does_syncPath (get_placed hvacant.room) hwriting'
    (j.blamesBelow.blames (rest ++ [name]))) (fun _ hw => hw) ?_ w hw
  intro ok w hw
  rw [placed_child hroom hnew'] at hw hwriting'
  refine ⟨hw.1, _, silent ++ silent', closed', ?_, hwriting', names_snoc hnames,
    partCopy_snoc hnames hnew hpart hpart'⟩
  rw [← append_assoc]
  exact hw.2

omit hstream hsource hroom in
theorem hasType_exact (e : Env) (source : Path) (entry : String × Tree) {E : World → Prop} :
    Triple E (Is b fs) (hasType e source entry) fun ok w => ok = true ∧ Is b fs w ∨
      ok = false ∧ Is b (fs ++ [⟨⟨.readdir, source⟩, [entry]⟩]) w ∧ ¬ Faultless e := by
  intro w hw
  unfold hasType
  by_cases huntyped : e.untyped w.ops (source ++ [entry.1]) = true
  · rw [if_pos huntyped]
    refine Or.inr ⟨rfl, ⟨hw.base, by rw [← hw.failures]⟩, fun hfaultless => ?_⟩
    rw [hfaultless.types] at huntyped
    cases huntyped
  · rw [if_neg huntyped]
    exact Or.inl ⟨rfl, hw⟩

theorem does_copyEntry {copy : Path → Path → Command World Bool} {done todo : Entries}
    {entry : String × Tree} (hsound : Sound j.c j.key (.dir entries))
    (hsplit : entries = done ++ entry :: todo)
    (hdir : ∀ name sub, entries.lookup name = some (.dir sub) →
      CopiesDir j copy (rest ++ [name]) sub) :
    j.Does (Looping j b rest fs done) (copyEntry j.c j.e copy (j.source :: rest) (some j.key)
      (j.target :: rest) (some j.newKey) entry) (Looping j b rest fs (done ++ [entry])) := by
  have hnodup : (entries.map Prod.fst).Nodup := hsound.proper [] entries rfl
  obtain ⟨hnew, hlookup⟩ := lookup_of_split hsplit hnodup
  intro w hw
  obtain ⟨done', silent, closed, hw, hwriting, hnames, hpart⟩ := hw
  refine branch (hasType_exact j.e (j.source :: rest) entry) ?_ (Triple.pure true ?_) w hw
  · refine Does.mono (P := Looping j b rest fs done) ?_
      (fun w hw => ⟨done', silent, closed, hw, hwriting, hnames, hpart⟩) fun _ _ h => h
    obtain ⟨name, node⟩ := entry
    cases node with
    | file data => exact does_copyFile_entry hstream hsource hroom hsound hnew hlookup
    | dir sub => exact does_copyDir_entry hstream hsource hroom hnew hlookup (hdir name sub hlookup)
  intro w hw
  -- The entry is missing in the copy, as if readdir had not given it.
  obtain ⟨hw, hfaulty⟩ := hw
  let missed : Failure := ⟨⟨.readdir, j.source :: rest⟩, [entry]⟩
  rw [append_assoc] at hw
  rw [hsplit] at hnodup hsound
  refine Or.inl ⟨rfl, done', silent ++ [missed], closed, hw, hwriting, fun name hname => ?_,
    partCopy_unread (f := missed) hnames ?_ (fun path data hdata => ?_) ⟨rfl, ⟨rest, rfl⟩, hfaulty⟩
      hpart⟩
  · rw [lookup_append, Option.or_eq_none_iff] at hname
    exact hnames name hname.1
  · refine hnodup.sublist (List.Sublist.map _ (List.Sublist.append_left ?_ done))
    exact List.Sublist.cons_cons entry (nil_sublist todo)
  · have hread : fileAt (.dir ([entry] ++ todo)) path = some data := fileAt_read hdata
    exact hsound.written path data (fileAt_unread hnodup hread)

theorem does_copyEntries {copy : Path → Path → Command World Bool} (done todo : Entries)
    (hsound : Sound j.c j.key (.dir entries)) (hsplit : entries = done ++ todo)
    (hdir : ∀ name sub, entries.lookup name = some (.dir sub) →
      CopiesDir j copy (rest ++ [name]) sub) :
    j.Does (Looping j b rest fs done) (copyEntries j.c j.e copy (j.source :: rest) (some j.key)
      (j.target :: rest) (some j.newKey) todo) (Copied j b rest fs (.dir entries)) := by
  induction todo generalizing done with
  | nil =>
    intro w hw
    obtain ⟨done', silent, closed, hw, hwriting, hnames, hpart⟩ := hw
    refine Triple.bind (syscall_error (fun _ _ => rfl) hwriting) (fun _ => ?_) w hw
    refine Triple.pure true fun w hw => Or.inl ⟨rfl, .dir done', silent, closed, hw.2, hwriting, ?_⟩
    rw [append_nil] at hsplit
    rw [hsplit]
    exact hpart
  | cons entry todo ih =>
    have hvisible : isHidden entry.1 = false := by
      refine hsound.visible [] entries rfl entry ?_
      rw [hsplit]
      exact mem_append_right _ mem_cons_self
    have hrest := ih (done ++ [entry]) (by rw [hsplit, append_assoc]; rfl)
    intro w hw
    obtain ⟨done', silent, closed, hw, hwriting, hnames, hpart⟩ := hw
    have hread : Triple (Dying j.e (Writing j)) (Is (placed j b rest (.dir done') closed)
        (fs ++ silent)) (succeeds (readdir j.e (j.source :: rest) (entry :: todo))) _ :=
      succeeds_exact (syscall_exact (fun w hw => ⟨w, rfl, hw, rfl⟩) hwriting hwriting)
    refine branch hread ?_ ?_ w hw
    · change Does j.e j.bad (Writing j) false _ (if isHidden entry.1 = true then _ else _) _
      rw [hvisible]
      refine Does.mono (P := Looping j b rest fs done) ?_
        (fun w hw => ⟨done', silent, closed, hw, hwriting, hnames, hpart⟩) fun _ _ h => h
      exact Does.when (does_copyEntry hstream hsource hroom hsound hsplit hdir) hrest
    · refine Triple.pure true ?_
      intro w hw
      obtain ⟨hw, n, hfails⟩ := hw
      let missed : Failure := ⟨⟨.readdir, j.source :: rest⟩, entry :: todo⟩
      refine Or.inl ⟨rfl, .dir done', silent ++ [missed], closed, ?_, hwriting, ?_⟩
      · rw [← append_assoc]
        exact hw
      rw [hsplit] at hsound ⊢
      have hnodup := hsound.proper [] _ rfl
      exact partCopy_unread (f := missed) hnames hnodup
        (fun path data hdata => hsound.written path data (fileAt_unread hnodup hdata))
        ⟨rfl, ⟨rest, rfl⟩, not_faultless hfails⟩ hpart

end Copying

section Trees

variable {j : Job} {b : Base} {fs : List Failure} {rest : Path} {entries : Entries}

theorem withDir_of_none {disk : Tree} {path : Path} (hroom : Room disk path)
    (hget : get disk path = none) : withDir disk path = .ok (put disk path (some (.dir []))) := by
  unfold withDir
  rw [hget, hasParent_of_room hroom]
  rfl

theorem room_put_top {disk : Tree} {value : Option Tree} {target : String}
    (hroom : Room disk [target]) : Room (put disk [target] value) [target] := by
  obtain ⟨parent, name, entries, hpath, hparent⟩ := hroom
  cases parent with
  | nil =>
    cases hparent
    exact ⟨[], target, _, rfl, rfl⟩
  | cons first parent =>
    have hlen := congrArg List.length hpath
    simp at hlen

/-- What is left of an earlier copy is removed. -/
theorem does_clear (hb : Writing j b) (hroom : Room b.disk (j.target :: rest))
    (hfree : get b.disk (j.target :: rest) = none ∨ rest = [] ∧ b.closed = []) :
    j.Does (Is b fs) (deltree j.e (j.target :: rest)) fun w =>
      ∃ disk, Is (remaining b disk) fs w ∧ Writing j (remaining b disk) ∧
        Near b.disk (j.target :: rest) disk ∧ Room disk (j.target :: rest) ∧
          get disk (j.target :: rest) = none := by
  cases hget : get b.disk (j.target :: rest) with
  | none =>
    refine Does.of_triple (Triple.mono (deltree_none hb hget) (fun _ hw => hw) ?_)
    intro ok w hw
    exact ⟨hw.1, b.disk, hw.2, hb, Or.inl rfl, hroom, hget⟩
  | some node =>
    obtain ⟨rfl, hclosed⟩ := hfree.resolve_left (by simp [hget])
    obtain ⟨sub, rfl, hmain⟩ := hb.shape node hget
    refine Does.mono (does_deltree (by simp) (fun _ => hb.pruned hclosed) j.blamesBelow hb.proper
      hget) (fun _ hw => hw) ?_
    intro ok w hw
    have hpruned : Pruned b.disk [j.target] (put b.disk [j.target] none) :=
      (Pruned.refl hb.proper).remove
    exact ⟨hw.1, _, hw.2, hb.pruned hclosed hpruned, hpruned.near, room_put_top hroom,
      get_put_self hroom⟩

/-- The directory for the copy is made. -/
theorem does_mkdir {disk : Tree} (hrest : rest ≠ ["meshlink.conf"])
    (hb : Writing j (remaining b disk)) (hnear : Near b.disk (j.target :: rest) disk)
    (hroom : Room disk (j.target :: rest)) (hfree : get disk (j.target :: rest) = none) :
    Writing j (placed j b rest (.dir []) b.closed) ∧
      j.Does (Is (remaining b disk) fs) (succeeds (mkdir j.e (j.target :: rest)))
        (Is (placed j b rest (.dir []) b.closed) fs) := by
  have hmade : Writing j (placed j (remaining b disk) rest (.dir []) b.closed) := by
    refine hb.placed hroom ⟨fun _ => ⟨[], rfl, nofun⟩, fun heq => absurd heq hrest⟩ proper_nil
      fun _ hledger => hledger.made hroom hfree ?_
    intro more data hdata
    cases more with
    | nil => cases hdata
    | cons name more => cases hdata
  have hsame : placed j (remaining b disk) rest (.dir []) b.closed =
      placed j b rest (.dir []) b.closed := by
    unfold placed remaining
    congr 1
    exact hnear.put_self
  rw [← hsame]
  exact ⟨hmade, Does.succeeds (does_change (withDir_of_none hroom hfree) hb hmade
    fun n => j.blamesBelow.blames rest _ n nofun nofun)⟩

theorem does_copytreeLevels {main : Bytes}
    (hmain : get j.start.disk [j.source, "meshlink.conf"] = some (.file main))
    (levels : ℕ) (b : Base) (fs : List Failure) (rest : Path) (entries : Entries)
    (hb : Writing j b) (hstream : b.stream = none)
    (hsource : get b.disk (j.source :: rest) = some (.dir entries))
    (hsound : Sound j.c j.key (.dir entries)) (hroom : Room b.disk (j.target :: rest))
    (hfree : get b.disk (j.target :: rest) = none ∨ rest = [] ∧ b.closed = [])
    (hlevels : heights entries < levels) :
    j.Does (Is b fs) (copytreeLevels j.c j.e (some j.key) (some j.newKey) levels
      (j.source :: rest) (j.target :: rest)) (Copied j b rest fs (.dir entries)) := by
  induction levels generalizing b fs rest entries with
  | zero => exact absurd hlevels (Nat.not_lt_zero _)
  | succ levels ih =>
    have hrest : rest ≠ ["meshlink.conf"] := by
      intro heq
      rw [heq, hb.near.get_of_ne j.apart.symm, hmain] at hsource
      cases hsource
    refine Does.bind_eq (does_inspect (listing_of_dir hsource) hb
      fun n => j.blames rest _ n nofun nofun) ?_ (fun w hw => ⟨rfl, hw⟩)
    refine Does.unless (does_clear hb hroom hfree) ?_
    intro w hw
    obtain ⟨disk, hw, hb', hnear, hroom', hfree'⟩ := hw
    obtain ⟨hplaced, hmkdir⟩ := does_mkdir hrest hb' hnear hroom' hfree'
    refine Does.unless hmkdir ?_ w hw
    refine Does.mono (does_copyEntries hstream hsource hroom [] entries hsound rfl ?_) ?_
      fun _ _ h => h
    · intro name sub hlookup b' fs' hvacant hget'
      have hheight := height_le_of_lookup hlookup
      rw [height_dir] at hheight
      have hchild : get (.dir entries) [name] = some (.dir sub) := by
        simp only [FileTree.get, hlookup]
      exact ih b' fs' (rest ++ [name]) sub hvacant.writing hvacant.stream hget'
        (sound_child hsound hchild) hvacant.room (Or.inl hvacant.free) (by omega)
    · intro w hw
      refine ⟨[], [], b.closed, ?_, hplaced, fun _ h => h, partCopy_empty⟩
      rw [append_nil]
      exact hw

theorem does_configCopy {main : Bytes}
    (hmain : get j.start.disk [j.source, "meshlink.conf"] = some (.file main))
    (hb : Writing j j.start) (hstream : j.start.stream = none) (hclosed : j.start.closed = [])
    (hsource : get j.start.disk [j.source] = some (.dir entries))
    (hsound : Sound j.c j.key (.dir entries)) (hroom : Room j.start.disk [j.target]) :
    j.Does (Is j.start fs) (configCopy j.c j.e j.source (some j.key) j.target (some j.newKey))
      (Copied j j.start [] fs (.dir entries)) := by
  intro w hw
  have hdisk : w.disk = j.start.disk := congrArg Base.disk hw.base
  have hheight := height_lt_of_get hsource (by simp)
  have hlevels : heights entries < w.disk.height + 1 := by
    rw [height_dir] at hheight
    rw [hdisk]
    omega
  exact does_copytreeLevels hmain _ j.start fs [] entries hb hstream hsource hsound hroom
    (Or.inr ⟨rfl, hclosed⟩) hlevels w hw

end Trees

end Meshlink.TreeCopy
